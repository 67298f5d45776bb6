import Snowlake.Lib.Parsing
import Snowlake.Parse.Lexer

/-! # The grammar

`src/parser/parser.yy`, with a language for every nonterminal: its constructors
are the productions, and the value of the tokens is what the semantic action
builds.  The nonterminals for lists are `ListOf` and `SeparatedBy`.
-/

namespace Snowlake

open Parsing

namespace Grammar

inductive Identifier : Language Token ASTIdentifier
  | mk (text) : Identifier [.identifier text] text

def Identifiable : Language Token ASTIdentifiable := fun tokens identifiable =>
  SeparatedBy .dot Identifier tokens identifiable.identifiers

inductive EqualityOperator : Language Token Snowlake.EqualityOperator
  | operatorEq : EqualityOperator [.operatorEq] .operatorEq
  | operatorNeq : EqualityOperator [.operatorNeq] .operatorNeq
  | operatorLt : EqualityOperator [.operatorLt] .operatorLt
  | operatorLte : EqualityOperator [.operatorLte] .operatorLte

/-- `deduction_target`, by the productions of its three alternatives. -/
inductive DeductionTarget : Language Token ASTDeductionTarget
  | singular (name) : DeductionTarget [.identifier name] (.singular name)
  | array (name) : DeductionTarget [.identifier name, .lbracket, .rbracket] (.array name none)
  | arrayOfSize (name size) :
      DeductionTarget [.identifier name, .lbracket, .integerLiteral size, .rbracket]
        (.array name (some size))
  | computed (name) : DeductionTarget [.identifier name, .lparen, .rparen] (.computed name [])
  | computedOf {name list targets} : SeparatedBy .comma DeductionTarget list targets →
      DeductionTarget (.identifier name :: .lparen :: (list ++ [.rparen])) (.computed name targets)

inductive PropositionDefn : Language Token ASTPropositionDefn
  | mk {tokens target} : DeductionTarget tokens target →
      PropositionDefn (.keywordProposition :: .colon :: (tokens ++ [.semicolon])) ⟨target⟩

inductive RangeClause : Language Token ASTRangeClause
  | mk {lhsIdx rhsIdx tokens target} : DeductionTarget tokens target →
      RangeClause (.keywordInrange :: .integerLiteral lhsIdx :: .ellipsis :: .integerLiteral rhsIdx ::
        .ellipsis :: tokens) ⟨lhsIdx, rhsIdx, target⟩

inductive PremiseTypeEqualityDefn : Language Token ASTInferenceEqualityDefn
  | plain {left lhs sign oprt right rhs} : DeductionTarget left lhs → EqualityOperator sign oprt →
      DeductionTarget right rhs →
      PremiseTypeEqualityDefn (left ++ (sign ++ (right ++ [.semicolon]))) ⟨lhs, rhs, oprt, none⟩
  | ranged {left lhs sign oprt right rhs tokens range} : DeductionTarget left lhs →
      EqualityOperator sign oprt → DeductionTarget right rhs → RangeClause tokens range →
      PremiseTypeEqualityDefn (left ++ (sign ++ (right ++ (tokens ++ [.semicolon]))))
        ⟨lhs, rhs, oprt, some range⟩

mutual
inductive PremiseDefn : Language Token ASTPremiseDefn
  | inferencePremise {tokens defn} : PremiseTypeInferenceDefn tokens defn →
      PremiseDefn tokens (.inferencePremise defn)
  | inferenceEquality {tokens defn} : PremiseTypeEqualityDefn tokens defn →
      PremiseDefn tokens (.inferenceEquality defn)

inductive PremiseTypeInferenceDefn : Language Token ASTInferencePremiseDefn
  | plain {names source tokens target} : Identifiable names source → DeductionTarget tokens target →
      PremiseTypeInferenceDefn (names ++ .colon :: (tokens ++ [.semicolon])) ⟨source, target, none⟩
  | whileLoop {names source tokens target loop body} : Identifiable names source →
      DeductionTarget tokens target → WhileClause loop body →
      PremiseTypeInferenceDefn (names ++ .colon :: (tokens ++ (loop ++ [.semicolon])))
        ⟨source, target, some body⟩

inductive WhileClause : Language Token (List ASTPremiseDefn)
  | mk {tokens premises} : ListOf PremiseDefn tokens premises →
      WhileClause (.keywordWhile :: .lbrace :: (tokens ++ [.rbrace])) premises
end

abbrev PremiseDefnList : Language Token (List ASTPremiseDefn) := ListOf PremiseDefn

inductive PremiseSet : Language Token (List ASTPremiseDefn)
  | mk {tokens premises} : PremiseDefnList tokens premises →
      PremiseSet (.keywordPremises :: .colon :: .lbracket :: (tokens ++ [.rbracket])) premises

inductive InferenceArgument : Language Token ASTInferenceArgument
  | mk (name typeName) :
      InferenceArgument [.identifier name, .colon, .identifier typeName] ⟨name, typeName⟩

abbrev ArgumentList : Language Token (List ASTInferenceArgument) :=
  SeparatedBy .comma InferenceArgument

inductive ArgumentSet : Language Token (List ASTInferenceArgument)
  | empty : ArgumentSet [.keywordArguments, .colon, .lbracket, .rbracket] []
  | mk {tokens arguments} : ArgumentList tokens arguments →
      ArgumentSet (.keywordArguments :: .colon :: .lbracket :: (tokens ++ [.rbracket])) arguments

inductive GlobalDecl : Language Token ASTGlobalDecl
  | mk (name) : GlobalDecl [.identifier name] ⟨name⟩

abbrev GlobalDeclList : Language Token (List ASTGlobalDecl) := SeparatedBy .comma GlobalDecl

inductive GlobalDeclSet : Language Token (List ASTGlobalDecl)
  | empty : GlobalDeclSet [] []
  | mk {tokens decls} : GlobalDeclList tokens decls →
      GlobalDeclSet (.keywordGlobals :: .colon :: .lbracket :: (tokens ++ [.rbracket])) decls

inductive InferenceDefn : Language Token ASTInferenceDefn
  | mk {name globalTokens globals argumentTokens arguments premiseTokens premises
        propositionTokens proposition} :
      GlobalDeclSet globalTokens globals → ArgumentSet argumentTokens arguments →
      PremiseSet premiseTokens premises → PropositionDefn propositionTokens proposition →
      InferenceDefn (.keywordInference :: .identifier name :: .lbrace :: (globalTokens ++
          (argumentTokens ++ (premiseTokens ++ (propositionTokens ++ [.rbrace])))))
        ⟨name, globals, arguments, premises, proposition⟩

abbrev InferenceDefnList : Language Token (List ASTInferenceDefn) := ListOf InferenceDefn

inductive EnvironmentDefn : Language Token ASTEnvironmentDefn
  | mk (field value) :
      EnvironmentDefn [.identifier field, .colon, .identifier value, .semicolon] ⟨field, value⟩

abbrev EnvironmentDefnList : Language Token (List ASTEnvironmentDefn) := ListOf EnvironmentDefn

inductive InferenceGroup : Language Token ASTInferenceGroup
  | mk {name environmentTokens environment inferenceTokens inferences} :
      EnvironmentDefnList environmentTokens environment →
      InferenceDefnList inferenceTokens inferences →
      InferenceGroup (.keywordGroup :: .identifier name :: .lbrace ::
          (environmentTokens ++ (inferenceTokens ++ [.rbrace])))
        ⟨name, environment, inferences⟩

abbrev InferenceGroupList : Language Token (List ASTInferenceGroup) := ListOf InferenceGroup

/-- `input`, with the module that its action hands to the driver. -/
inductive Input : Language Token ASTModule
  | mk {tokens groups} : InferenceGroupList tokens groups → Input tokens ⟨groups⟩

end Grammar

end Snowlake
