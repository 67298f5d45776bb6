import Snowlake.Parse.Premises

/-! # The parser

The rest of the parser, and `ParserDriver::parseFromString`.
-/

namespace Snowlake

open Parsing

namespace Parser

/-! ## Inferences -/

def premiseSet (fuel : Nat) : Parsing.Parser Token (List ASTPremiseDefn) := do
  expect .keywordPremises
  expect .colon
  expect .lbracket
  let premises ← many isIdentifier (premiseDefn fuel) fuel
  expect .rbracket
  return premises

def inferenceArgument : Parsing.Parser Token ASTInferenceArgument := do
  let name ← identifier
  expect .colon
  let typeName ← identifier
  return ⟨name, typeName⟩

def argumentSet (fuel : Nat) : Parsing.Parser Token (List ASTInferenceArgument) := do
  expect .keywordArguments
  expect .colon
  expect .lbracket
  if ← accept .rbracket then return []
  else
    let arguments ← separated .comma inferenceArgument fuel
    expect .rbracket
    return arguments

def globalDecl : Parsing.Parser Token ASTGlobalDecl := do
  let name ← identifier
  return ⟨name⟩

def globalDeclSet (fuel : Nat) : Parsing.Parser Token (List ASTGlobalDecl) := do
  if ← accept .keywordGlobals then
    expect .colon
    expect .lbracket
    let decls ← separated .comma globalDecl fuel
    expect .rbracket
    return decls
  else return []

def inferenceDefn (fuel : Nat) : Parsing.Parser Token ASTInferenceDefn := do
  expect .keywordInference
  let name ← identifier
  expect .lbrace
  let globals ← globalDeclSet fuel
  let arguments ← argumentSet fuel
  let premises ← premiseSet fuel
  let proposition ← propositionDefn fuel
  expect .rbrace
  return ⟨name, globals, arguments, premises, proposition⟩

theorem premiseSet_reads (fuel : Nat) : Reads fuel (premiseSet fuel) Grammar.PremiseSet Anywhere where
  sound := by
    intro _ _ _ read
    obtain ⟨_, rfl, behindWord⟩ := expect_bind_eq_some.mp read
    obtain ⟨_, rfl, behindColon⟩ := expect_bind_eq_some.mp behindWord
    obtain ⟨_, rfl, behindBracket⟩ := expect_bind_eq_some.mp behindColon
    obtain ⟨premises, _, readList, behindList⟩ := bind_eq_some.mp behindBracket
    obtain ⟨tokens, rfl, isList⟩ := many_sound (premiseDefn_reads fuel) fuel readList
    obtain ⟨_, rfl, result⟩ := expect_bind_eq_some.mp behindList
    obtain ⟨rfl, rfl⟩ := pure_eq_some.mp result
    exact ⟨_, by simp, .mk isList⟩
  complete := by
    intro _ premises rest isSet within _
    obtain @⟨tokens, _, isList⟩ := isSet
    simp only [List.length_cons, List.length_append] at within
    have readList : many isIdentifier (premiseDefn fuel) fuel (tokens ++ .rbracket :: rest) =
        some (premises, .rbracket :: rest) :=
      ((premiseDefn_reads fuel).many premiseDefn_starts).complete isList (by omega) rfl
    simp only [premiseSet, List.append_assoc, List.cons_append, List.nil_append, expect_bind,
      bind_eq readList, pure_apply]

theorem inferenceArgument_starts : StartsWith Grammar.InferenceArgument isIdentifier := by
  intro _ _ derived
  cases derived
  rfl

theorem inferenceArgument_reads (size : Nat) :
    Reads size inferenceArgument Grammar.InferenceArgument Anywhere where
  sound := by
    intro _ _ _ read
    obtain ⟨name, _, rfl, behindName⟩ := identifier_bind_eq_some.mp read
    obtain ⟨_, rfl, behindColon⟩ := expect_bind_eq_some.mp behindName
    obtain ⟨typeName, _, rfl, result⟩ := identifier_bind_eq_some.mp behindColon
    obtain ⟨rfl, rfl⟩ := pure_eq_some.mp result
    exact ⟨_, rfl, .mk name typeName⟩
  complete := by
    rintro _ _ _ ⟨name, typeName⟩ _ _
    simp only [inferenceArgument, List.cons_append, List.nil_append, identifier_bind, expect_bind,
      pure_apply]

theorem argumentSet_reads (fuel : Nat) :
    Reads fuel (argumentSet fuel) Grammar.ArgumentSet Anywhere where
  sound := by
    intro _ _ _ read
    obtain ⟨_, rfl, behindWord⟩ := expect_bind_eq_some.mp read
    obtain ⟨_, rfl, behindColon⟩ := expect_bind_eq_some.mp behindWord
    obtain ⟨_, rfl, behindBracket⟩ := expect_bind_eq_some.mp behindColon
    rcases accept_bind_eq_some.mp behindBracket with ⟨_, rfl, result⟩ | ⟨-, listed⟩
    · obtain ⟨rfl, rfl⟩ := pure_eq_some.mp result
      exact ⟨_, rfl, .empty⟩
    · obtain ⟨arguments, _, readList, behindList⟩ := bind_eq_some.mp listed
      obtain ⟨tokens, rfl, isList⟩ := separated_sound (inferenceArgument_reads fuel) fuel readList
      obtain ⟨_, rfl, result⟩ := expect_bind_eq_some.mp behindList
      obtain ⟨rfl, rfl⟩ := pure_eq_some.mp result
      exact ⟨_, by simp, .mk isList⟩
  complete := by
    intro _ arguments rest isSet within _
    cases isSet with
    | empty =>
        simp only [argumentSet, List.cons_append, List.nil_append, expect_bind, accept_bind, if_true,
          pure_apply]
    | @mk tokens _ isList =>
        simp only [List.length_cons, List.length_append] at within
        have readList : separated .comma inferenceArgument fuel (tokens ++ .rbracket :: rest) =
            some (arguments, .rbracket :: rest) :=
          ((inferenceArgument_reads fuel).separated inferenceArgument_starts
            fun _ => trivial).complete isList (by omega) ⟨trivial, by simp⟩
        have notEmpty := inferenceArgument_starts.separatedBy.head?_ne isList (.rbracket :: rest)
          (rfl : isIdentifier .rbracket = false)
        simp only [argumentSet, List.append_assoc, List.cons_append, List.nil_append, expect_bind,
          accept_bind_of_ne notEmpty, Bool.false_eq_true, if_false, bind_eq readList, pure_apply]

theorem argumentSet_starts : StartsWith Grammar.ArgumentSet (· == .keywordArguments) := by
  intro _ _ derived
  cases derived <;> rfl

theorem globalDecl_starts : StartsWith Grammar.GlobalDecl isIdentifier := by
  intro _ _ derived
  cases derived
  rfl

theorem globalDecl_reads (size : Nat) : Reads size globalDecl Grammar.GlobalDecl Anywhere where
  sound := by
    intro _ _ _ read
    obtain ⟨name, _, rfl, result⟩ := identifier_bind_eq_some.mp read
    obtain ⟨rfl, rfl⟩ := pure_eq_some.mp result
    exact ⟨_, rfl, .mk name⟩
  complete := by
    rintro _ _ _ ⟨name⟩ _ _
    simp only [globalDecl, List.cons_append, List.nil_append, identifier_bind, pure_apply]

theorem globalDeclSet_reads (fuel : Nat) :
    Reads fuel (globalDeclSet fuel) Grammar.GlobalDeclSet
      (fun rest => ¬ rest.head? = some .keywordGlobals) where
  sound := by
    intro _ _ _ read
    rcases accept_bind_eq_some.mp read with ⟨_, rfl, behindWord⟩ | ⟨-, result⟩
    · obtain ⟨_, rfl, behindColon⟩ := expect_bind_eq_some.mp behindWord
      obtain ⟨_, rfl, behindBracket⟩ := expect_bind_eq_some.mp behindColon
      obtain ⟨decls, _, readList, behindList⟩ := bind_eq_some.mp behindBracket
      obtain ⟨tokens, rfl, isList⟩ := separated_sound (globalDecl_reads fuel) fuel readList
      obtain ⟨_, rfl, result⟩ := expect_bind_eq_some.mp behindList
      obtain ⟨rfl, rfl⟩ := pure_eq_some.mp result
      exact ⟨_, by simp, .mk isList⟩
    · obtain ⟨rfl, rfl⟩ := pure_eq_some.mp result
      exact ⟨[], rfl, .empty⟩
  complete := by
    intro _ decls rest isSet within after
    cases isSet with
    | empty =>
        simp only [globalDeclSet, List.nil_append, accept_bind_of_ne after, Bool.false_eq_true, if_false,
          pure_apply]
    | @mk tokens _ isList =>
        simp only [List.length_cons, List.length_append] at within
        have readList : separated .comma globalDecl fuel (tokens ++ .rbracket :: rest) =
            some (decls, .rbracket :: rest) :=
          ((globalDecl_reads fuel).separated globalDecl_starts fun _ => trivial).complete isList
            (by omega) ⟨trivial, by simp⟩
        simp only [globalDeclSet, List.append_assoc, List.cons_append, List.nil_append, accept_bind,
          if_true, expect_bind, bind_eq readList, pure_apply]

theorem inferenceDefn_starts : StartsWith Grammar.InferenceDefn (· == .keywordInference) := by
  intro _ _ derived
  cases derived
  rfl

theorem inferenceDefn_reads (fuel : Nat) :
    Reads fuel (inferenceDefn fuel) Grammar.InferenceDefn Anywhere where
  sound := by
    intro _ _ _ read
    obtain ⟨_, rfl, behindWord⟩ := expect_bind_eq_some.mp read
    obtain ⟨name, _, rfl, behindName⟩ := identifier_bind_eq_some.mp behindWord
    obtain ⟨_, rfl, behindBrace⟩ := expect_bind_eq_some.mp behindName
    obtain ⟨globals, _, readGlobals, behindGlobals⟩ := bind_eq_some.mp behindBrace
    obtain ⟨globalTokens, rfl, isGlobals⟩ := (globalDeclSet_reads fuel).sound readGlobals
    obtain ⟨arguments, _, readArguments, behindArguments⟩ := bind_eq_some.mp behindGlobals
    obtain ⟨argumentTokens, rfl, isArguments⟩ := (argumentSet_reads fuel).sound readArguments
    obtain ⟨premises, _, readPremises, behindPremises⟩ := bind_eq_some.mp behindArguments
    obtain ⟨premiseTokens, rfl, isPremises⟩ := (premiseSet_reads fuel).sound readPremises
    obtain ⟨proposition, _, readProposition, behindProposition⟩ := bind_eq_some.mp behindPremises
    obtain ⟨propositionTokens, rfl, isProposition⟩ := (propositionDefn_reads fuel).sound readProposition
    obtain ⟨_, rfl, result⟩ := expect_bind_eq_some.mp behindProposition
    obtain ⟨rfl, rfl⟩ := pure_eq_some.mp result
    exact ⟨_, by simp, .mk isGlobals isArguments isPremises isProposition⟩
  complete := by
    intro _ _ rest isDefn within _
    obtain @⟨name, globalTokens, globals, argumentTokens, arguments, premiseTokens, premises,
      propositionTokens, proposition, isGlobals, isArguments, isPremises, isProposition⟩ := isDefn
    simp only [List.length_cons, List.length_append] at within
    have readGlobals := (globalDeclSet_reads fuel).complete isGlobals (by omega)
      (argumentSet_starts.head?_ne isArguments
        (premiseTokens ++ (propositionTokens ++ .rbrace :: rest)) rfl)
    have readArguments : argumentSet fuel
        (argumentTokens ++ (premiseTokens ++ (propositionTokens ++ .rbrace :: rest))) =
          some (arguments, premiseTokens ++ (propositionTokens ++ .rbrace :: rest)) :=
      (argumentSet_reads fuel).complete isArguments (by omega) trivial
    have readPremises : premiseSet fuel (premiseTokens ++ (propositionTokens ++ .rbrace :: rest)) =
        some (premises, propositionTokens ++ .rbrace :: rest) :=
      (premiseSet_reads fuel).complete isPremises (by omega) trivial
    have readProposition : propositionDefn fuel (propositionTokens ++ .rbrace :: rest) =
        some (proposition, .rbrace :: rest) :=
      (propositionDefn_reads fuel).complete isProposition (by omega) trivial
    simp only [inferenceDefn, List.append_assoc, List.cons_append, List.nil_append, expect_bind,
      identifier_bind, bind_eq readGlobals, bind_eq readArguments, bind_eq readPremises,
      bind_eq readProposition, pure_apply]

/-! ## Groups -/

def environmentDefn : Parsing.Parser Token ASTEnvironmentDefn := do
  let field ← identifier
  expect .colon
  let value ← identifier
  expect .semicolon
  return ⟨field, value⟩

def inferenceGroup (fuel : Nat) : Parsing.Parser Token ASTInferenceGroup := do
  expect .keywordGroup
  let name ← identifier
  expect .lbrace
  let environment ← many isIdentifier environmentDefn fuel
  let inferences ← many (· == .keywordInference) (inferenceDefn fuel) fuel
  expect .rbrace
  return ⟨name, environment, inferences⟩

def inferenceGroupList (fuel : Nat) : Parsing.Parser Token (List ASTInferenceGroup) :=
  many (· == .keywordGroup) (inferenceGroup fuel) fuel

theorem environmentDefn_starts : StartsWith Grammar.EnvironmentDefn isIdentifier := by
  intro _ _ derived
  cases derived
  rfl

theorem environmentDefn_reads (size : Nat) :
    Reads size environmentDefn Grammar.EnvironmentDefn Anywhere where
  sound := by
    intro _ _ _ read
    obtain ⟨field, _, rfl, behindField⟩ := identifier_bind_eq_some.mp read
    obtain ⟨_, rfl, behindColon⟩ := expect_bind_eq_some.mp behindField
    obtain ⟨value, _, rfl, behindValue⟩ := identifier_bind_eq_some.mp behindColon
    obtain ⟨_, rfl, result⟩ := expect_bind_eq_some.mp behindValue
    obtain ⟨rfl, rfl⟩ := pure_eq_some.mp result
    exact ⟨_, rfl, .mk field value⟩
  complete := by
    rintro _ _ _ ⟨field, value⟩ _ _
    simp only [environmentDefn, List.cons_append, List.nil_append, identifier_bind, expect_bind,
      pure_apply]

theorem inferenceGroup_starts : StartsWith Grammar.InferenceGroup (· == .keywordGroup) := by
  intro _ _ derived
  cases derived
  rfl

theorem inferenceGroup_reads (fuel : Nat) :
    Reads fuel (inferenceGroup fuel) Grammar.InferenceGroup Anywhere where
  sound := by
    intro _ _ _ read
    obtain ⟨_, rfl, behindWord⟩ := expect_bind_eq_some.mp read
    obtain ⟨name, _, rfl, behindName⟩ := identifier_bind_eq_some.mp behindWord
    obtain ⟨_, rfl, behindBrace⟩ := expect_bind_eq_some.mp behindName
    obtain ⟨environment, _, readEnvironment, behindEnvironment⟩ := bind_eq_some.mp behindBrace
    obtain ⟨environmentTokens, rfl, isEnvironment⟩ :=
      many_sound (environmentDefn_reads fuel) fuel readEnvironment
    obtain ⟨inferences, _, readInferences, behindInferences⟩ := bind_eq_some.mp behindEnvironment
    obtain ⟨inferenceTokens, rfl, isInferences⟩ :=
      many_sound (inferenceDefn_reads fuel) fuel readInferences
    obtain ⟨_, rfl, result⟩ := expect_bind_eq_some.mp behindInferences
    obtain ⟨rfl, rfl⟩ := pure_eq_some.mp result
    exact ⟨_, by simp, .mk isEnvironment isInferences⟩
  complete := by
    intro _ _ rest isGroup within _
    obtain @⟨name, environmentTokens, environment, inferenceTokens, inferences, isEnvironment,
      isInferences⟩ := isGroup
    simp only [List.length_cons, List.length_append] at within
    have behindEnvironment : NotBefore isIdentifier (inferenceTokens ++ .rbrace :: rest) :=
      inferenceDefn_starts.notBefore (by rintro ⟨⟩ <;> simp [isIdentifier]) isInferences rfl
    have readEnvironment : many isIdentifier environmentDefn fuel
        (environmentTokens ++ (inferenceTokens ++ .rbrace :: rest)) =
          some (environment, inferenceTokens ++ .rbrace :: rest) :=
      ((environmentDefn_reads fuel).many environmentDefn_starts).complete isEnvironment (by omega)
        behindEnvironment
    have readInferences :
        many (· == .keywordInference) (inferenceDefn fuel) fuel (inferenceTokens ++ .rbrace :: rest) =
          some (inferences, .rbrace :: rest) :=
      ((inferenceDefn_reads fuel).many inferenceDefn_starts).complete isInferences (by omega) rfl
    simp only [inferenceGroup, List.append_assoc, List.cons_append, List.nil_append, expect_bind,
      identifier_bind, bind_eq readEnvironment, bind_eq readInferences, pure_apply]

theorem inferenceGroupList_reads (fuel : Nat) :
    Reads fuel (inferenceGroupList fuel) Grammar.InferenceGroupList (NotBefore (· == .keywordGroup)) :=
  (inferenceGroup_reads fuel).many inferenceGroup_starts

theorem inferenceGroupList_stops {fuel : Nat} {input rest : List Token}
    {groups : List ASTInferenceGroup} (read : inferenceGroupList fuel input = some (groups, rest))
    (enough : input.length ≤ fuel) : NotBefore (· == .keywordGroup) rest :=
  many_stops (inferenceGroup_reads fuel) inferenceGroup_starts fuel read enough

end Parser

end Snowlake
