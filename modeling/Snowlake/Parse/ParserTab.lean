import Mathlib.Data.List.Basic
import Mathlib.Algebra.Group.Int.Defs
import Snowlake.Parse.LexerState
import Snowlake.Parse.ParserDriver
import Snowlake.Parse.Rendering

/-! # The parser that Bison made

`src/parser/precompiled/parser.tab.cc`: the tables of `parser.yy`, the semantic
actions, and `yy::Parser::parse` with its stack.  The locations of the stack are
left out, nothing reads them but those of later entries.  A table that is read
outside, a stack that is too short and a value of another type than `as` expects
are undefined behaviour in the source, and `none` here.
-/

namespace Snowlake

/-- The terminals, without `error` and the undefined token: the lexer returns
neither, and no production mentions them. -/
inductive Terminal where
  | endOfFile
  | keywordGroup
  | keywordInference
  | keywordEnvironment
  | keywordArguments
  | keywordGlobals
  | keywordWhile
  | keywordInrange
  | keywordPremises
  | keywordProposition
  | integerLiteral
  | identifier
  | dot
  | comma
  | colon
  | semicolon
  | lbracket
  | rbracket
  | lbrace
  | rbrace
  | lparen
  | rparen
  | operatorEq
  | operatorNeq
  | operatorLt
  | operatorLte
  | ellipsis
  deriving Repr, DecidableEq

inductive Nonterminal where
  | accept
  | input
  | inferenceGroupList
  | inferenceGroup
  | environmentDefnList
  | environmentDefn
  | inferenceDefnList
  | inferenceDefn
  | globalDeclSet
  | globalDeclList
  | globalDecl
  | argumentSet
  | argumentList
  | inferenceArgument
  | premiseSet
  | premiseDefnList
  | premiseDefn
  | premiseTypeInferenceDefn
  | whileClause
  | premiseTypeEqualityDefn
  | rangeClause
  | propositionDefn
  | identifiable
  | identifier
  | deductionTargetList
  | deductionTarget
  | deductionTargetSingular
  | deductionTargetArray
  | deductionTargetComputed
  | equalityOperator
  deriving Repr, DecidableEq

/-- The internal number of a symbol, `type_get()`. -/
def Terminal.number : Terminal → ℕ
  | .endOfFile => 0
  | .keywordGroup => 3
  | .keywordInference => 4
  | .keywordEnvironment => 5
  | .keywordArguments => 6
  | .keywordGlobals => 7
  | .keywordWhile => 8
  | .keywordInrange => 9
  | .keywordPremises => 10
  | .keywordProposition => 11
  | .integerLiteral => 12
  | .identifier => 13
  | .dot => 14
  | .comma => 15
  | .colon => 16
  | .semicolon => 17
  | .lbracket => 18
  | .rbracket => 19
  | .lbrace => 20
  | .rbrace => 21
  | .lparen => 22
  | .rparen => 23
  | .operatorEq => 24
  | .operatorNeq => 25
  | .operatorLt => 26
  | .operatorLte => 27
  | .ellipsis => 28

def Nonterminal.number : Nonterminal → ℕ
  | .accept => 29
  | .input => 30
  | .inferenceGroupList => 31
  | .inferenceGroup => 32
  | .environmentDefnList => 33
  | .environmentDefn => 34
  | .inferenceDefnList => 35
  | .inferenceDefn => 36
  | .globalDeclSet => 37
  | .globalDeclList => 38
  | .globalDecl => 39
  | .argumentSet => 40
  | .argumentList => 41
  | .inferenceArgument => 42
  | .premiseSet => 43
  | .premiseDefnList => 44
  | .premiseDefn => 45
  | .premiseTypeInferenceDefn => 46
  | .whileClause => 47
  | .premiseTypeEqualityDefn => 48
  | .rangeClause => 49
  | .propositionDefn => 50
  | .identifiable => 51
  | .identifier => 52
  | .deductionTargetList => 53
  | .deductionTarget => 54
  | .deductionTargetSingular => 55
  | .deductionTargetArray => 56
  | .deductionTargetComputed => 57
  | .equalityOperator => 58

def Token.terminal : Token → Terminal
  | .keywordGroup => .keywordGroup
  | .keywordInference => .keywordInference
  | .keywordEnvironment => .keywordEnvironment
  | .keywordArguments => .keywordArguments
  | .keywordGlobals => .keywordGlobals
  | .keywordWhile => .keywordWhile
  | .keywordInrange => .keywordInrange
  | .keywordPremises => .keywordPremises
  | .keywordProposition => .keywordProposition
  | .integerLiteral _ => .integerLiteral
  | .identifier _ => .identifier
  | .dot => .dot
  | .comma => .comma
  | .colon => .colon
  | .semicolon => .semicolon
  | .lbracket => .lbracket
  | .rbracket => .rbracket
  | .lbrace => .lbrace
  | .rbrace => .rbrace
  | .lparen => .lparen
  | .rparen => .rparen
  | .operatorEq => .operatorEq
  | .operatorNeq => .operatorNeq
  | .operatorLt => .operatorLt
  | .operatorLte => .operatorLte
  | .ellipsis => .ellipsis

namespace ParserTab

/-- A token, or `END`. -/
def kind : Option Token → Terminal
  | none => .endOfFile
  | some token => token.terminal

/-! ## Tables -/

def yypact_ : List ℤ := [
  -44, 38, 36, -44, 27, -44, 21, -44, 30, 28, -44, -3, 32, 33, -44, -44, 31, 29, -44, 40, 34, 45, 35,
  39, 42, 41, 43, 44, 46, -44, -10, -44, 6, 47, 48, 37, 41, -44, 50, -44, 2, -44, -44, 49, -44, -44, 54,
  55, -44, 9, 11, 52, -44, -44, -44, -44, -44, -8, -44, -44, -44, -44, 16, -44, 10, 8, -11, -44, 57, 49,
  -44, -44, -44, -44, 49, 53, -44, -44, -12, -44, -44, -44, -4, -2, -44, 49, -44, 51, -44, 56, 62, -44,
  58, -44, -44, -44, 59, -44, 3, 64, -44, 60, 49, -44]

def yydefact_ : List ℕ := [
  3, 0, 2, 1, 0, 4, 0, 6, 9, 0, 7, 0, 0, 0, 5, 10, 0, 0, 8, 12, 0, 0, 0, 0, 0, 0, 0, 0, 0, 16, 0, 14, 0,
  0, 0, 0, 0, 13, 0, 17, 0, 19, 23, 0, 11, 15, 0, 0, 18, 0, 42, 0, 39, 40, 41, 21, 20, 42, 22, 24, 25,
  26, 0, 34, 0, 0, 0, 33, 0, 0, 47, 48, 49, 50, 0, 0, 43, 45, 0, 37, 36, 35, 0, 0, 44, 0, 46, 0, 27, 0,
  0, 30, 0, 38, 23, 28, 0, 31, 0, 0, 29, 0, 0, 32]

def yypgoto_ : List ℤ := [
  -44, -44, -44, -44, -44, -44, -44, -44, -44, -44, 20, -44, -44, 61, -44, -31, -44, -44, -44, -44, -44,
  -44, -44, 12, -44, -43, -44, -44, -44, -44]

def yydefgoto_ : List ℤ := [
  -1, 1, 2, 5, 8, 10, 11, 15, 21, 30, 31, 24, 40, 41, 28, 49, 59, 60, 89, 61, 92, 35, 62, 63, 78, 64,
  52, 53, 54, 74]

def yytable_ : List ℤ := [
  51, 13, 50, 85, 87, 36, -36, 90, -36, 37, 65, 86, 77, 88, 66, 91, 57, 47, 14, 38, 75, 48, 57, 79, 100,
  39, 82, 76, 58, 65, 68, 83, 69, 66, 70, 71, 72, 73, 3, 4, 6, 7, 93, 9, 12, 16, 17, 20, 18, 19, 22, 23,
  27, 25, 29, 26, 45, 34, 44, 103, 33, 32, 50, 98, 43, 42, 46, 55, 38, 67, 80, 94, 84, 95, 96, 97, 101,
  0, 0, 0, 81, 0, 0, 0, 0, 0, 0, 99, 102, 0, 0, 0, 0, 0, 0, 0, 0, 0, 0, 0, 0, 0, 0, 0, 0, 0, 0, 0, 56]

def yycheck_ : List ℤ := [
  43, 4, 13, 15, 8, 15, 14, 9, 16, 19, 18, 23, 23, 17, 22, 17, 13, 15, 21, 13, 12, 19, 13, 66, 21, 19,
  69, 19, 19, 18, 14, 74, 16, 22, 24, 25, 26, 27, 0, 3, 13, 20, 85, 13, 16, 13, 13, 7, 17, 20, 16, 6,
  10, 18, 13, 16, 36, 11, 21, 102, 16, 18, 13, 94, 16, 18, 16, 13, 13, 17, 13, 20, 19, 17, 12, 17, 12,
  -1, -1, -1, 68, -1, -1, -1, -1, -1, -1, 28, 28, -1, -1, -1, -1, -1, -1, -1, -1, -1, -1, -1, -1, -1,
  -1, -1, -1, -1, -1, -1, 47]

def yyr1_ : List ℕ := [
  0, 29, 30, 31, 31, 32, 33, 33, 34, 35, 35, 36, 37, 37, 38, 38, 39, 40, 40, 41, 41, 42, 43, 44, 44, 45,
  45, 46, 46, 47, 48, 48, 49, 50, 51, 51, 52, 53, 53, 54, 54, 54, 55, 56, 56, 57, 57, 58, 58, 58, 58]

def yyr2_ : List ℕ := [
  0, 2, 1, 0, 2, 6, 0, 2, 4, 0, 2, 8, 0, 5, 1, 3, 1, 4, 5, 1, 3, 3, 5, 0, 2, 1, 1, 4, 5, 4, 4, 5, 6, 4,
  1, 3, 1, 1, 3, 1, 1, 1, 1, 3, 4, 3, 4, 1, 1, 1, 1]

def yypact_ninf_ : ℤ := -44

def yytable_ninf_ : ℤ := -37

def yylast_ : ℤ := 108

def yyfinal_ : ℕ := 3

def yyterror_ : ℤ := 1

def yyntokens_ : ℕ := 29

def yytname_ : List String := [
  "\"end of file\"", "error", "$undefined", "KEYWORD_GROUP", "KEYWORD_INFERENCE",
  "KEYWORD_ENVIRONMENT", "KEYWORD_ARGUMENTS", "KEYWORD_GLOBALS", "KEYWORD_WHILE", "KEYWORD_INRANGE",
  "KEYWORD_PREMISES", "KEYWORD_PROPOSITION", "INTEGER_LITERAL", "IDENTIFIER", "DOT", "COMMA", "COLON",
  "SEMICOLON", "LBRACKET", "RBRACKET", "LBRACE", "RBRACE", "LPAREN", "RPAREN", "OPERATOR_EQ",
  "OPERATOR_NEQ", "OPERATOR_LT", "OPERATOR_LTE", "ELLIPSIS", "$accept", "input",
  "inference_group_list", "inference_group", "environment_defn_list", "environment_defn",
  "inference_defn_list", "inference_defn", "global_decl_set", "global_decl_list", "global_decl",
  "argument_set", "argument_list", "inference_argument", "premise_set", "premise_defn_list",
  "premise_defn", "premise_type_inference_defn", "while_clause", "premise_type_equality_defn",
  "range_clause", "proposition_defn", "identifiable", "identifier", "deduction_target_list",
  "deduction_target", "deduction_target_singular", "deduction_target_array",
  "deduction_target_computed", "equality_operator"]

/-! ## Semantic values -/

/-- The types of the semantic values, those of `%type` and `%token`. -/
inductive SemanticType where
  | empty
  | string
  | uint64
  | equalityOperator
  | deductionTarget
  | deductionTargetList
  | deductionTargetSingular
  | deductionTargetArray
  | deductionTargetComputed
  | identifier
  | identifiable
  | propositionDefn
  | rangeClause
  | whileClause
  | inferencePremiseDefn
  | inferenceEqualityDefn
  | premiseDefn
  | premiseDefnList
  | inferenceArgument
  | inferenceArgumentList
  | globalDecl
  | globalDeclList
  | environmentDefn
  | environmentDefnList
  | inferenceDefn
  | inferenceDefnList
  | inferenceGroup
  | inferenceGroupList
  | module
  deriving DecidableEq

/-- The classes of the three kinds of targets have a name and what else their
constructor takes. -/
abbrev SemanticType.denote : SemanticType → Type
  | .empty => Unit
  | .string => StringType
  | .uint64 => IntegerType
  | .equalityOperator => EqualityOperator
  | .deductionTarget => ASTDeductionTarget
  | .deductionTargetList => List ASTDeductionTarget
  | .deductionTargetSingular => StringType
  | .deductionTargetArray => StringType × Option IntegerType
  | .deductionTargetComputed => StringType × List ASTDeductionTarget
  | .identifier => ASTIdentifier
  | .identifiable => ASTIdentifiable
  | .propositionDefn => ASTPropositionDefn
  | .rangeClause => ASTRangeClause
  | .whileClause => List ASTPremiseDefn
  | .inferencePremiseDefn => ASTInferencePremiseDefn
  | .inferenceEqualityDefn => ASTInferenceEqualityDefn
  | .premiseDefn => ASTPremiseDefn
  | .premiseDefnList => List ASTPremiseDefn
  | .inferenceArgument => ASTInferenceArgument
  | .inferenceArgumentList => List ASTInferenceArgument
  | .globalDecl => ASTGlobalDecl
  | .globalDeclList => List ASTGlobalDecl
  | .environmentDefn => ASTEnvironmentDefn
  | .environmentDefnList => List ASTEnvironmentDefn
  | .inferenceDefn => ASTInferenceDefn
  | .inferenceDefnList => List ASTInferenceDefn
  | .inferenceGroup => ASTInferenceGroup
  | .inferenceGroupList => List ASTInferenceGroup
  | .module => ASTModule

/-- `semantic_type`, the variant of Bison: a value with its type. -/
structure Value where
  type : SemanticType
  value : type.denote

/-- `value.as<T>()`, which asserts that the value has this type. -/
def Value.as (type : SemanticType) (value : Value) : Option type.denote :=
  if same : value.type = type then some (same ▸ value.value) else none

/-- The value that the lexer gives a token. -/
def leaf : Option Token → Value
  | none => ⟨.empty, ()⟩
  | some (.integerLiteral value) => ⟨.uint64, value⟩
  | some token => ⟨.string, String.ofList token.text⟩

/-- The semantic action of a rule, on the values of its right hand side. -/
def act (rule : ℕ) (values : List Value) (driver : ParserDriver) : Option (Value × ParserDriver) :=
  match rule, values with
  | 1, [_, _] => return (⟨.empty, ()⟩, driver)
  | 2, [groups] => do
      let groups ← groups.as .inferenceGroupList
      return (⟨.module, ⟨[]⟩⟩, driver.setModule ⟨groups⟩)
  | 3, [] => return (⟨.inferenceGroupList, []⟩, driver)
  | 4, [groups, group] => do
      let groups ← groups.as .inferenceGroupList
      let group ← group.as .inferenceGroup
      return (⟨.inferenceGroupList, groups ++ [group]⟩, driver)
  | 5, [_, name, _, environment, inferences, _] => do
      let name ← name.as .string
      let environment ← environment.as .environmentDefnList
      let inferences ← inferences.as .inferenceDefnList
      return (⟨.inferenceGroup, ⟨name, environment, inferences⟩⟩, driver)
  | 6, [] => return (⟨.environmentDefnList, []⟩, driver)
  | 7, [defns, defn] => do
      let defns ← defns.as .environmentDefnList
      let defn ← defn.as .environmentDefn
      return (⟨.environmentDefnList, defns ++ [defn]⟩, driver)
  | 8, [field, _, value, _] => do
      let field ← field.as .string
      let value ← value.as .string
      return (⟨.environmentDefn, ⟨field, value⟩⟩, driver)
  | 9, [] => return (⟨.inferenceDefnList, []⟩, driver)
  | 10, [defns, defn] => do
      let defns ← defns.as .inferenceDefnList
      let defn ← defn.as .inferenceDefn
      return (⟨.inferenceDefnList, defns ++ [defn]⟩, driver)
  | 11, [_, name, _, globals, arguments, premises, proposition, _] => do
      let name ← name.as .string
      let globals ← globals.as .globalDeclList
      let arguments ← arguments.as .inferenceArgumentList
      let premises ← premises.as .premiseDefnList
      let proposition ← proposition.as .propositionDefn
      return (⟨.inferenceDefn, ⟨name, globals, arguments, premises, proposition⟩⟩, driver)
  | 12, [] => return (⟨.globalDeclList, []⟩, driver)
  | 13, [_, _, _, decls, _] => do
      let decls ← decls.as .globalDeclList
      return (⟨.globalDeclList, decls⟩, driver)
  | 14, [decl] => do
      let decl ← decl.as .globalDecl
      return (⟨.globalDeclList, [decl]⟩, driver)
  | 15, [decls, _, decl] => do
      let decls ← decls.as .globalDeclList
      let decl ← decl.as .globalDecl
      return (⟨.globalDeclList, decls ++ [decl]⟩, driver)
  | 16, [name] => do
      let name ← name.as .string
      return (⟨.globalDecl, ⟨name⟩⟩, driver)
  | 17, [_, _, _, _] => return (⟨.inferenceArgumentList, []⟩, driver)
  | 18, [_, _, _, arguments, _] => do
      let arguments ← arguments.as .inferenceArgumentList
      return (⟨.inferenceArgumentList, arguments⟩, driver)
  | 19, [argument] => do
      let argument ← argument.as .inferenceArgument
      return (⟨.inferenceArgumentList, [argument]⟩, driver)
  | 20, [arguments, _, argument] => do
      let arguments ← arguments.as .inferenceArgumentList
      let argument ← argument.as .inferenceArgument
      return (⟨.inferenceArgumentList, arguments ++ [argument]⟩, driver)
  | 21, [name, _, typeName] => do
      let name ← name.as .string
      let typeName ← typeName.as .string
      return (⟨.inferenceArgument, ⟨name, typeName⟩⟩, driver)
  | 22, [_, _, _, premises, _] => do
      let premises ← premises.as .premiseDefnList
      return (⟨.premiseDefnList, premises⟩, driver)
  | 23, [] => return (⟨.premiseDefnList, []⟩, driver)
  | 24, [premises, premise] => do
      let premises ← premises.as .premiseDefnList
      let premise ← premise.as .premiseDefn
      return (⟨.premiseDefnList, premises ++ [premise]⟩, driver)
  | 25, [defn] => do
      let defn ← defn.as .inferencePremiseDefn
      return (⟨.premiseDefn, .inferencePremise defn⟩, driver)
  | 26, [defn] => do
      let defn ← defn.as .inferenceEqualityDefn
      return (⟨.premiseDefn, .inferenceEquality defn⟩, driver)
  | 27, [source, _, target, _] => do
      let source ← source.as .identifiable
      let target ← target.as .deductionTarget
      return (⟨.inferencePremiseDefn, ⟨source, target, none⟩⟩, driver)
  | 28, [source, _, target, clause, _] => do
      let source ← source.as .identifiable
      let target ← target.as .deductionTarget
      let clause ← clause.as .whileClause
      return (⟨.inferencePremiseDefn, ⟨source, target, some clause⟩⟩, driver)
  | 29, [_, _, premises, _] => do
      let premises ← premises.as .premiseDefnList
      return (⟨.whileClause, premises⟩, driver)
  | 30, [lhs, oprt, rhs, _] => do
      let lhs ← lhs.as .deductionTarget
      let rhs ← rhs.as .deductionTarget
      let oprt ← oprt.as .equalityOperator
      return (⟨.inferenceEqualityDefn, ⟨lhs, rhs, oprt, none⟩⟩, driver)
  | 31, [lhs, oprt, rhs, clause, _] => do
      let lhs ← lhs.as .deductionTarget
      let rhs ← rhs.as .deductionTarget
      let oprt ← oprt.as .equalityOperator
      let clause ← clause.as .rangeClause
      return (⟨.inferenceEqualityDefn, ⟨lhs, rhs, oprt, some clause⟩⟩, driver)
  | 32, [_, lhsIdx, _, rhsIdx, _, target] => do
      let lhsIdx ← lhsIdx.as .uint64
      let rhsIdx ← rhsIdx.as .uint64
      let target ← target.as .deductionTarget
      return (⟨.rangeClause, ⟨lhsIdx, rhsIdx, target⟩⟩, driver)
  | 33, [_, _, target, _] => do
      let target ← target.as .deductionTarget
      return (⟨.propositionDefn, ⟨target⟩⟩, driver)
  | 34, [identifier] => do
      let identifier ← identifier.as .identifier
      return (⟨.identifiable, ⟨[identifier]⟩⟩, driver)
  | 35, [identifiable, _, identifier] => do
      let identifiable ← identifiable.as .identifiable
      let identifier ← identifier.as .identifier
      return (⟨.identifiable, ⟨identifiable.identifiers ++ [identifier]⟩⟩, driver)
  | 36, [text] => do
      let text ← text.as .string
      return (⟨.identifier, text⟩, driver)
  | 37, [target] => do
      let target ← target.as .deductionTarget
      return (⟨.deductionTargetList, [target]⟩, driver)
  | 38, [targets, _, target] => do
      let targets ← targets.as .deductionTargetList
      let target ← target.as .deductionTarget
      return (⟨.deductionTargetList, targets ++ [target]⟩, driver)
  | 39, [target] => do
      let name ← target.as .deductionTargetSingular
      return (⟨.deductionTarget, .singular name⟩, driver)
  | 40, [target] => do
      let (name, size) ← target.as .deductionTargetArray
      return (⟨.deductionTarget, .array name size⟩, driver)
  | 41, [target] => do
      let (name, arguments) ← target.as .deductionTargetComputed
      return (⟨.deductionTarget, .computed name arguments⟩, driver)
  | 42, [name] => do
      let name ← name.as .string
      return (⟨.deductionTargetSingular, name⟩, driver)
  | 43, [name, _, _] => do
      let name ← name.as .string
      return (⟨.deductionTargetArray, (name, none)⟩, driver)
  | 44, [name, _, size, _] => do
      let name ← name.as .string
      let size ← size.as .uint64
      return (⟨.deductionTargetArray, (name, some size)⟩, driver)
  | 45, [name, _, _] => do
      let name ← name.as .string
      return (⟨.deductionTargetComputed, (name, [])⟩, driver)
  | 46, [name, _, arguments, _] => do
      let name ← name.as .string
      let arguments ← arguments.as .deductionTargetList
      return (⟨.deductionTargetComputed, (name, arguments)⟩, driver)
  | 47, [_] => return (⟨.equalityOperator, .operatorEq⟩, driver)
  | 48, [_] => return (⟨.equalityOperator, .operatorNeq⟩, driver)
  | 49, [_] => return (⟨.equalityOperator, .operatorLt⟩, driver)
  | 50, [_] => return (⟨.equalityOperator, .operatorLte⟩, driver)
  | _, _ => none

/-! ## Messages -/

/-- `table[index]`. -/
def read {α : Type} (table : List α) (index : ℤ) : Option α :=
  if 0 ≤ index then table[index.toNat]? else none

/-- `yytnamerr_`: quotes around a name go, unless there is an apostrophe, a comma
or a single backslash between them. -/
def yytnamerr_ (yystr : List Char) : List Char :=
  match yystr with
  | '"' :: yyp => (strip yyp []).getD yystr
  | _ => yystr
where
  /-- What stands before the closing quote. -/
  strip : List Char → List Char → Option (List Char)
    | '\'' :: _, _ | ',' :: _, _ => none
    | '\\' :: '\\' :: yyp, yyr => strip yyp (yyr ++ ['\\'])
    | '\\' :: _, _ => none
    | '"' :: _, yyr => some yyr
    | c :: yyp, yyr => strip yyp (yyr ++ [c])
    | [], _ => none

def YYERROR_VERBOSE_ARGS_MAXIMUM : ℕ := 5

/-- The loop over `yyx` of `yysyntax_error_`, from the names that are there. -/
def expectedNames (yyn : ℤ) : List ℕ → List String → Option (List String)
  | [], yyarg => some yyarg
  | yyx :: rest, yyarg => do
      if (← read yycheck_ (yyx + yyn)) = yyx ∧ (yyx : ℤ) ≠ yyterror_ then
        if (← read yytable_ (yyx + yyn)) ≠ yytable_ninf_ then
          if yyarg.length = YYERROR_VERBOSE_ARGS_MAXIMUM then return yyarg.take 1
          else expectedNames yyn rest (yyarg ++ [← yytname_[yyx]?])
        else expectedNames yyn rest yyarg
      else expectedNames yyn rest yyarg

def yyformat : ℕ → String
  | 0 => "syntax error"
  | 1 => "syntax error, unexpected %s"
  | 2 => "syntax error, unexpected %s, expecting %s"
  | 3 => "syntax error, unexpected %s, expecting %s or %s"
  | 4 => "syntax error, unexpected %s, expecting %s or %s or %s"
  | _ => "syntax error, unexpected %s, expecting %s or %s or %s or %s"

/-- The format with the names in the place of `%s`. -/
def substitute : List Char → List String → List Char
  | '%' :: 's' :: yyp, name :: yyarg => yytnamerr_ name.toList ++ substitute yyp yyarg
  | c :: yyp, yyarg => c :: substitute yyp yyarg
  | [], _ => []

/-- The names in the message, if the lookahead is of the kind: it is unexpected,
others are expected. -/
def yyarg (yystate : ℕ) (unexpected : Terminal) : Option (List String) := do
  let unexpected ← yytname_[unexpected.number]?
  let yyn ← yypact_[yystate]?
  if yyn = yypact_ninf_ then return [unexpected]
  else
    let yyxbegin := if yyn < 0 then -yyn else 0
    let yychecklim := yylast_ - yyn + 1
    let yyxend := if yychecklim < yyntokens_ then yychecklim else yyntokens_
    expectedNames yyn ((List.range yyxend.toNat).drop yyxbegin.toNat) [unexpected]

/-- `yysyntax_error_`.  `yyla` is `none` if there is no lookahead. -/
def yysyntax_error_ (yystate : ℕ) (yyla : Option (Option Token)) : Option String := do
  let yyarg ← match yyla with
    | none => pure []
    | some token => yyarg yystate (kind token)
  return String.ofList (substitute (yyformat yyarg.length).toList yyarg)

/-! ## The parser -/

/-- `yy_lr_goto_state_`. -/
def yy_lr_goto_state_ (yystate : ℕ) (yysym : ℕ) : Option ℤ := do
  let yyr := (← read yypgoto_ (yysym - yyntokens_)) + yystate
  if 0 ≤ yyr ∧ yyr ≤ yylast_ then
    if (← read yycheck_ yyr) = yystate then read yytable_ yyr else read yydefgoto_ (yysym - yyntokens_)
  else read yydefgoto_ (yysym - yyntokens_)

/-- The variables of `parse` that outlive a round, and the driver. -/
structure Parse where
  /-- The states and values, the top first. -/
  yystack : List (ℕ × Value)
  /-- The lookahead, if there is one. -/
  yyla : Option (Option Token)
  /-- `yyla.location`, that stays when the lookahead goes. -/
  location : Location
  /-- What the next calls of `yylex` return. -/
  input : List (Option Token × Location)
  yynerrs : ℕ
  yyerrstatus : ℕ
  driver : ParserDriver
  /-- The calls of `error`. -/
  errors : List (Location × String)

/-- How a round ends: at `yynewstate` again, or at `yyreturn`. -/
inductive Round where
  | yynewstate (parse : Parse)
  | yyreturn (yyresult : ℤ) (parse : Parse)

/-- The state that the error token is shifted to, if it is. -/
def errorTarget (state : ℕ) : Option (Option ℕ) := do
  let yyn ← yypact_[state]?
  if yyn = yypact_ninf_ then return none
  let yyn := yyn + yyterror_
  if 0 ≤ yyn ∧ yyn ≤ yylast_ then
    if (← read yycheck_ yyn) = yyterror_ then
      let yyn ← read yytable_ yyn
      return if 0 < yyn then some yyn.toNat else none
  return none

/-- The entries are popped until the top can shift the error token. -/
def yyerrlab1 (parse : Parse) : List (ℕ × Value) → Option Round
  | [] => none
  | (state, value) :: below => do
      match ← errorTarget state with
      | some target =>
          return .yynewstate { parse with
            yystack := (target, ⟨.empty, ()⟩) :: (state, value) :: below, yyerrstatus := 3 }
      | none =>
          if below = [] then return .yyreturn 1 { parse with yystack := [(state, value)], yyerrstatus := 3 }
          else yyerrlab1 parse below

def yyerrlab (state : ℕ) (parse : Parse) : Option Round := do
  let parse ←
    if parse.yyerrstatus = 0 then do
      let message ← yysyntax_error_ state parse.yyla
      pure { parse with
        yynerrs := parse.yynerrs + 1, errors := parse.errors ++ [(parse.location, message)] }
    else pure parse
  if parse.yyerrstatus = 3 then
    match parse.yyla with
    | some none => return .yyreturn 1 parse
    | some (some _) => yyerrlab1 { parse with yyla := none } parse.yystack
    | none => yyerrlab1 parse parse.yystack
  else yyerrlab1 parse parse.yystack

def yyreduce (yyn : ℕ) (parse : Parse) : Option Round := do
  let yylen ← yyr2_[yyn]?
  let (below, _) ← parse.yystack[yylen]?
  let state ← yy_lr_goto_state_ below (← yyr1_[yyn]?)
  let (value, driver) ← act yyn ((parse.yystack.take yylen).reverse.map Prod.snd) parse.driver
  return .yynewstate { parse with yystack := (← state.toNat?, value) :: parse.yystack.drop yylen, driver }

def yydefault (state : ℕ) (parse : Parse) : Option Round := do
  let yyn ← yydefact_[state]?
  if yyn = 0 then yyerrlab state parse else yyreduce yyn parse

/-- Behind the point where a lookahead is there. -/
def yyaction (state : ℕ) (yyn : ℤ) (token : Option Token) (parse : Parse) : Option Round := do
  let yyn := yyn + (kind token).number
  if yyn < 0 ∨ yylast_ < yyn then yydefault state parse
  else if (← read yycheck_ yyn) ≠ (kind token).number then yydefault state parse
  else
    let yyn ← read yytable_ yyn
    if yyn ≤ 0 then
      if yyn = yytable_ninf_ then yyerrlab state parse else yyreduce (-yyn).toNat parse
    else
      return .yynewstate { parse with
        yystack := (yyn.toNat, leaf token) :: parse.yystack, yyla := none,
        yyerrstatus := parse.yyerrstatus - 1 }

def yybackup (state : ℕ) (parse : Parse) : Option Round := do
  let yyn ← yypact_[state]?
  if yyn = yypact_ninf_ then yydefault state parse
  else
    match parse.yyla with
    | some token => yyaction state yyn token parse
    | none =>
        match parse.input with
        | [] => none
        | (token, location) :: input =>
            yyaction state yyn token { parse with yyla := some token, location, input }

def yynewstate (parse : Parse) : Option Round := do
  let (state, _) ← parse.yystack.head?
  if state = yyfinal_ then return .yyreturn 0 parse else yybackup state parse

/-- The loop, for a number of rounds. -/
def loop : ℕ → Parse → Option Round
  | 0, parse => return .yynewstate parse
  | fuel + 1, parse => do
      match ← yynewstate parse with
      | .yynewstate parse => loop fuel parse
      | .yyreturn yyresult parse => return .yyreturn yyresult parse

/-- `parse` before its first round; `input` ends with `END`. -/
def Parse.init (input : List (Option Token × Location)) (driver : ParserDriver) : Parse where
  yystack := [(0, ⟨.empty, ()⟩)]
  yyla := none
  location := {}
  input
  yynerrs := 0
  yyerrstatus := 0
  driver
  errors := []

end ParserTab

end Snowlake
