import Snowlake.Parse.Grammar

/-! # Reading premises

The parser that Bison makes of the grammar, up to premises, written with one or
two tokens of lookahead, and that it reads the languages of `Grammar`.  The fuel
of a function bounds the number of tokens it takes.
-/

namespace Snowlake

open Parsing

namespace Parser

variable {α : Type}

def isIdentifier : Token → Bool
  | .identifier _ => true
  | _ => false

def identifier : Parsing.Parser Token StringType :=
  take fun
    | .identifier text => some text
    | _ => none

def integerLiteral : Parsing.Parser Token IntegerType :=
  take fun
    | .integerLiteral value => some value
    | _ => none

def equalityOperator : Parsing.Parser Token EqualityOperator :=
  take fun
    | .operatorEq => some .operatorEq
    | .operatorNeq => some .operatorNeq
    | .operatorLt => some .operatorLt
    | .operatorLte => some .operatorLte
    | _ => none

def deductionTarget : Nat → Parsing.Parser Token ASTDeductionTarget
  | 0 => failure
  | fuel + 1 => do
      let name ← identifier
      if ← accept .lbracket then
        if ← accept .rbracket then return .array name none
        else
          let size ← integerLiteral
          expect .rbracket
          return .array name (some size)
      else if ← accept .lparen then
        if ← accept .rparen then return .computed name []
        else
          let arguments ← separated .comma (deductionTarget fuel) fuel
          expect .rparen
          return .computed name arguments
      else return .singular name

theorem identifier_eq_some {input rest : List Token} {name : StringType} :
    identifier input = some (name, rest) ↔ input = .identifier name :: rest := by
  rw [identifier, take_eq_some]
  constructor
  · rintro ⟨token, found, rfl⟩
    cases token <;> cases found
    rfl
  · rintro rfl
    exact ⟨_, rfl, rfl⟩

theorem integerLiteral_eq_some {input rest : List Token} {value : IntegerType} :
    integerLiteral input = some (value, rest) ↔ input = .integerLiteral value :: rest := by
  rw [integerLiteral, take_eq_some]
  constructor
  · rintro ⟨token, found, rfl⟩
    cases token <;> cases found
    rfl
  · rintro rfl
    exact ⟨_, rfl, rfl⟩

@[simp] theorem identifier_bind {name : StringType} {rest : List Token}
    {next : StringType → Parsing.Parser Token α} :
    (identifier >>= next) (.identifier name :: rest) = next name rest :=
  bind_eq (identifier_eq_some.mpr rfl)

@[simp] theorem integerLiteral_bind {value : IntegerType} {rest : List Token}
    {next : IntegerType → Parsing.Parser Token α} :
    (integerLiteral >>= next) (.integerLiteral value :: rest) = next value rest :=
  bind_eq (integerLiteral_eq_some.mpr rfl)

theorem identifier_bind_eq_some {input rest : List Token} {next : StringType → Parsing.Parser Token α}
    {result : α} : (identifier >>= next) input = some (result, rest) ↔
      ∃ name more, input = .identifier name :: more ∧ next name more = some (result, rest) := by
  simp only [bind_eq_some, identifier_eq_some]

theorem integerLiteral_bind_eq_some {input rest : List Token}
    {next : IntegerType → Parsing.Parser Token α} {result : α} :
    (integerLiteral >>= next) input = some (result, rest) ↔
      ∃ value more, input = .integerLiteral value :: more ∧ next value more = some (result, rest) := by
  simp only [bind_eq_some, integerLiteral_eq_some]

/-- What follows a target is none of its own brackets. -/
def AfterTarget (rest : List Token) : Prop :=
  rest.head? ≠ some .lbracket ∧ rest.head? ≠ some .lparen

theorem deductionTarget_starts : StartsWith Grammar.DeductionTarget isIdentifier := by
  intro _ _ derived
  cases derived <;> rfl

theorem afterTarget_comma (rest : List Token) : AfterTarget (.comma :: rest) := by
  simp [AfterTarget]

theorem deductionTarget_sound (fuel : Nat) {input rest : List Token} {target : ASTDeductionTarget}
    (ih : Reads fuel (deductionTarget fuel) Grammar.DeductionTarget AfterTarget)
    (read : deductionTarget (fuel + 1) input = some (target, rest)) :
    ∃ tokens, input = tokens ++ rest ∧ Grammar.DeductionTarget tokens target := by
  obtain ⟨name, _, rfl, behindName⟩ := identifier_bind_eq_some.mp read
  rcases accept_bind_eq_some.mp behindName with ⟨_, rfl, isArray⟩ | ⟨-, noArray⟩
  · rcases accept_bind_eq_some.mp isArray with ⟨_, rfl, closed⟩ | ⟨-, sized⟩
    · obtain ⟨rfl, rfl⟩ := pure_eq_some.mp closed
      exact ⟨_, rfl, .array name⟩
    · obtain ⟨size, _, rfl, behindSize⟩ := integerLiteral_bind_eq_some.mp sized
      obtain ⟨_, rfl, closed⟩ := expect_bind_eq_some.mp behindSize
      obtain ⟨rfl, rfl⟩ := pure_eq_some.mp closed
      exact ⟨_, rfl, .arrayOfSize name size⟩
  · rcases accept_bind_eq_some.mp noArray with ⟨_, rfl, isComputed⟩ | ⟨-, isSingular⟩
    · rcases accept_bind_eq_some.mp isComputed with ⟨_, rfl, closed⟩ | ⟨-, listed⟩
      · obtain ⟨rfl, rfl⟩ := pure_eq_some.mp closed
        exact ⟨_, rfl, .computed name⟩
      · obtain ⟨targets, _, readList, behindList⟩ := bind_eq_some.mp listed
        obtain ⟨_, rfl, closed⟩ := expect_bind_eq_some.mp behindList
        obtain ⟨rfl, rfl⟩ := pure_eq_some.mp closed
        obtain ⟨list, rfl, isList⟩ := separated_sound ih fuel readList
        exact ⟨_, by simp, .computedOf isList⟩
    · obtain ⟨rfl, rfl⟩ := pure_eq_some.mp isSingular
      exact ⟨_, rfl, .singular name⟩

theorem deductionTarget_complete (fuel : Nat)
    (ih : Reads fuel (deductionTarget fuel) Grammar.DeductionTarget AfterTarget)
    {tokens rest : List Token} {target : ASTDeductionTarget}
    (isTarget : Grammar.DeductionTarget tokens target) (within : tokens.length ≤ fuel + 1)
    (after : AfterTarget rest) :
    deductionTarget (fuel + 1) (tokens ++ rest) = some (target, rest) := by
  cases isTarget with
  | singular name =>
      simp [-bind_pure_comp, deductionTarget, accept_bind_of_ne after.1, accept_bind_of_ne after.2]
  | array name => simp [-bind_pure_comp, deductionTarget]
  | arrayOfSize name size => simp [-bind_pure_comp, deductionTarget, accept_bind_of_ne]
  | computed name => simp [-bind_pure_comp, deductionTarget, accept_bind_of_ne]
  | @computedOf name list targets isList =>
      simp only [List.length_cons, List.length_append] at within
      have read : separated .comma (deductionTarget fuel) fuel (list ++ .rparen :: rest) =
          some (targets, .rparen :: rest) :=
        (ih.separated deductionTarget_starts afterTarget_comma).complete isList (by omega)
          (by simp [AfterTarget])
      have notEmpty := deductionTarget_starts.separatedBy.head?_ne isList (.rparen :: rest)
        (rfl : isIdentifier .rparen = false)
      simp [-bind_pure_comp, deductionTarget, accept_bind_of_ne, accept_bind_of_ne notEmpty,
        bind_eq read]

theorem deductionTarget_reads (fuel : Nat) :
    Reads fuel (deductionTarget fuel) Grammar.DeductionTarget AfterTarget := by
  induction fuel with
  | zero =>
      refine ⟨fun read => (by cases read), fun isTarget within _ => ?_⟩
      have nonempty := List.length_pos_iff.mpr (deductionTarget_starts.ne_nil isTarget)
      omega
  | succ fuel ih => exact ⟨deductionTarget_sound fuel ih, deductionTarget_complete fuel ih⟩

/-! ## Premises -/

def identifiable (fuel : Nat) : Parsing.Parser Token ASTIdentifiable := do
  let identifiers ← separated .dot identifier fuel
  return ⟨identifiers⟩

def propositionDefn (fuel : Nat) : Parsing.Parser Token ASTPropositionDefn := do
  expect .keywordProposition
  expect .colon
  let target ← deductionTarget fuel
  expect .semicolon
  return ⟨target⟩

def rangeClause (fuel : Nat) : Parsing.Parser Token ASTRangeClause := do
  expect .keywordInrange
  let lhsIdx ← integerLiteral
  expect .ellipsis
  let rhsIdx ← integerLiteral
  expect .ellipsis
  let target ← deductionTarget fuel
  return ⟨lhsIdx, rhsIdx, target⟩

def premiseTypeEqualityDefn (fuel : Nat) : Parsing.Parser Token ASTInferenceEqualityDefn := do
  let lhs ← deductionTarget fuel
  let oprt ← equalityOperator
  let rhs ← deductionTarget fuel
  if ← next (· == .keywordInrange) then
    let range ← rangeClause fuel
    expect .semicolon
    return ⟨lhs, rhs, oprt, some range⟩
  else
    expect .semicolon
    return ⟨lhs, rhs, oprt, none⟩

theorem equalityOperator_eq_some {input rest : List Token} {oprt : EqualityOperator} :
    equalityOperator input = some (oprt, rest) ↔
      ∃ sign, Grammar.EqualityOperator sign oprt ∧ input = sign ++ rest := by
  rw [equalityOperator, take_eq_some]
  constructor
  · rintro ⟨token, found, rfl⟩
    cases token <;> cases found
    · exact ⟨_, .operatorEq, rfl⟩
    · exact ⟨_, .operatorNeq, rfl⟩
    · exact ⟨_, .operatorLt, rfl⟩
    · exact ⟨_, .operatorLte, rfl⟩
  · rintro ⟨_, ⟨⟩, rfl⟩
    all_goals exact ⟨_, rfl, rfl⟩

theorem identifier_reads (size : Nat) : Reads size identifier Grammar.Identifier Anywhere where
  sound read := ⟨_, identifier_eq_some.mp read, .mk _⟩
  complete := by
    rintro _ _ _ ⟨name⟩ _ _
    exact identifier_eq_some.mpr rfl

theorem identifier_starts : StartsWith Grammar.Identifier isIdentifier := by
  intro _ _ derived
  cases derived
  rfl

theorem identifiable_reads (fuel : Nat) :
    Reads fuel (identifiable fuel) Grammar.Identifiable (fun rest => ¬ rest.head? = some .dot) where
  sound := by
    intro _ _ _ read
    obtain ⟨_, _, listed, result⟩ := bind_eq_some.mp read
    obtain ⟨rfl, rfl⟩ := pure_eq_some.mp result
    exact separated_sound (identifier_reads fuel) fuel listed
  complete := by
    intro tokens source rest isIdentifiable within stop
    have listed : separated .dot identifier fuel (tokens ++ rest) = some (source.identifiers, rest) :=
      ((identifier_reads fuel).separated identifier_starts fun _ => trivial).complete isIdentifiable
        within ⟨trivial, stop⟩
    rw [identifiable, bind_eq listed]
    rfl

theorem propositionDefn_reads (fuel : Nat) :
    Reads fuel (propositionDefn fuel) Grammar.PropositionDefn Anywhere where
  sound := by
    intro _ _ _ read
    obtain ⟨_, rfl, read'⟩ := expect_bind_eq_some.mp read
    obtain ⟨_, rfl, behindColon⟩ := expect_bind_eq_some.mp read'
    obtain ⟨target, _, readTarget, behindTarget⟩ := bind_eq_some.mp behindColon
    obtain ⟨_, rfl, result⟩ := expect_bind_eq_some.mp behindTarget
    obtain ⟨rfl, rfl⟩ := pure_eq_some.mp result
    obtain ⟨tokens, rfl, isTarget⟩ := (deductionTarget_reads fuel).sound readTarget
    exact ⟨_, by simp, .mk isTarget⟩
  complete := by
    rintro _ _ rest ⟨isTarget⟩ within -
    rename_i tokens target
    simp only [List.length_cons, List.length_append] at within
    have readTarget : deductionTarget fuel (tokens ++ .semicolon :: rest) =
        some (target, .semicolon :: rest) :=
      (deductionTarget_reads fuel).complete isTarget (by omega) (by simp [AfterTarget])
    simp [-bind_pure_comp, propositionDefn, bind_eq readTarget]

theorem rangeClause_reads (fuel : Nat) :
    Reads fuel (rangeClause fuel) Grammar.RangeClause AfterTarget where
  sound := by
    intro _ _ _ read
    obtain ⟨_, rfl, behindWord⟩ := expect_bind_eq_some.mp read
    obtain ⟨lhsIdx, _, rfl, behindLhs⟩ := integerLiteral_bind_eq_some.mp behindWord
    obtain ⟨_, rfl, behindDots⟩ := expect_bind_eq_some.mp behindLhs
    obtain ⟨rhsIdx, _, rfl, behindRhs⟩ := integerLiteral_bind_eq_some.mp behindDots
    obtain ⟨_, rfl, behindDots'⟩ := expect_bind_eq_some.mp behindRhs
    obtain ⟨target, _, readTarget, result⟩ := bind_eq_some.mp behindDots'
    obtain ⟨rfl, rfl⟩ := pure_eq_some.mp result
    obtain ⟨tokens, rfl, isTarget⟩ := (deductionTarget_reads fuel).sound readTarget
    exact ⟨_, rfl, .mk isTarget⟩
  complete := by
    intro _ _ rest isRange within after
    obtain @⟨_, _, tokens, target, isTarget⟩ := isRange
    simp only [List.length_cons] at within
    have readTarget : deductionTarget fuel (tokens ++ rest) = some (target, rest) :=
      (deductionTarget_reads fuel).complete isTarget (by omega) after
    simp [-bind_pure_comp, rangeClause, bind_eq readTarget]

theorem rangeClause_starts : StartsWith Grammar.RangeClause (· == .keywordInrange) := by
  intro _ _ derived
  cases derived
  rfl

theorem afterTarget_sign {sign : List Token} {oprt : EqualityOperator}
    (isSign : Grammar.EqualityOperator sign oprt) (rest : List Token) : AfterTarget (sign ++ rest) := by
  cases isSign <;> simp [AfterTarget]

/-- The operands and the sign are read before whatever a target may be followed by. -/
theorem equalityOperands_bind {α : Type} {fuel : Nat} {left sign right rest : List Token}
    {lhs rhs : ASTDeductionTarget} {oprt : EqualityOperator} (isLhs : Grammar.DeductionTarget left lhs)
    (isSign : Grammar.EqualityOperator sign oprt) (isRhs : Grammar.DeductionTarget right rhs)
    (withinLeft : left.length ≤ fuel) (withinRight : right.length ≤ fuel) (behind : AfterTarget rest)
    (continues : ASTDeductionTarget → EqualityOperator → ASTDeductionTarget → Parsing.Parser Token α) :
    (do
      let lhs ← deductionTarget fuel
      let oprt ← equalityOperator
      let rhs ← deductionTarget fuel
      continues lhs oprt rhs) (left ++ (sign ++ (right ++ rest))) = continues lhs oprt rhs rest := by
  have readLhs : deductionTarget fuel (left ++ (sign ++ (right ++ rest))) =
      some (lhs, sign ++ (right ++ rest)) :=
    (deductionTarget_reads fuel).complete isLhs withinLeft (afterTarget_sign isSign _)
  have readSign : equalityOperator (sign ++ (right ++ rest)) = some (oprt, right ++ rest) :=
    equalityOperator_eq_some.mpr ⟨_, isSign, rfl⟩
  have readRhs : deductionTarget fuel (right ++ rest) = some (rhs, rest) :=
    (deductionTarget_reads fuel).complete isRhs withinRight behind
  rw [bind_eq readLhs, bind_eq readSign, bind_eq readRhs]

theorem premiseTypeEqualityDefn_reads (fuel : Nat) :
    Reads (fuel + 1) (premiseTypeEqualityDefn fuel) Grammar.PremiseTypeEqualityDefn Anywhere where
  sound := by
    intro _ _ _ read
    obtain ⟨lhs, _, readLhs, behindLhs⟩ := bind_eq_some.mp read
    obtain ⟨oprt, _, readSign, behindSign⟩ := bind_eq_some.mp behindLhs
    obtain ⟨rhs, _, readRhs, behindRhs⟩ := bind_eq_some.mp behindSign
    obtain ⟨left, rfl, isLhs⟩ := (deductionTarget_reads fuel).sound readLhs
    obtain ⟨sign, isSign, rfl⟩ := equalityOperator_eq_some.mp readSign
    obtain ⟨right, rfl, isRhs⟩ := (deductionTarget_reads fuel).sound readRhs
    rw [next_bind] at behindRhs
    split at behindRhs
    · obtain ⟨range, _, readRange, behindRange⟩ := bind_eq_some.mp behindRhs
      obtain ⟨tokens, rfl, isRange⟩ := (rangeClause_reads fuel).sound readRange
      obtain ⟨_, rfl, result⟩ := expect_bind_eq_some.mp behindRange
      obtain ⟨rfl, rfl⟩ := pure_eq_some.mp result
      exact ⟨_, by simp, .ranged isLhs isSign isRhs isRange⟩
    · obtain ⟨_, rfl, result⟩ := expect_bind_eq_some.mp behindRhs
      obtain ⟨rfl, rfl⟩ := pure_eq_some.mp result
      exact ⟨_, by simp, .plain isLhs isSign isRhs⟩
  complete := by
    intro _ _ rest isEquality within _
    cases isEquality with
    | @plain left lhs sign oprt right rhs isLhs isSign isRhs =>
        simp only [List.length_append, List.length_singleton] at within
        have noRange : ((.semicolon :: rest).head?.any (· == Token.keywordInrange)) = false := rfl
        simp only [premiseTypeEqualityDefn, List.append_assoc, List.cons_append, List.nil_append]
        rw [equalityOperands_bind isLhs isSign isRhs (by omega) (by omega) (by simp [AfterTarget])]
        simp only [next_bind, noRange, Bool.false_eq_true, if_false, expect_bind, pure_apply]
    | @ranged left lhs sign oprt right rhs tokens range isLhs isSign isRhs isRange =>
        simp only [List.length_append, List.length_singleton] at within
        have behind : AfterTarget (tokens ++ .semicolon :: rest) :=
          ⟨rangeClause_starts.head?_ne isRange _ rfl, rangeClause_starts.head?_ne isRange _ rfl⟩
        have readRange : rangeClause fuel (tokens ++ .semicolon :: rest) =
            some (range, .semicolon :: rest) :=
          (rangeClause_reads fuel).complete isRange (by omega) (by simp [AfterTarget])
        have announced := rangeClause_starts.append isRange (.semicolon :: rest)
        simp only [premiseTypeEqualityDefn, List.append_assoc, List.cons_append, List.nil_append]
        rw [equalityOperands_bind isLhs isSign isRhs (by omega) (by omega) behind]
        simp only [next_bind, announced, if_true, bind_eq readRange, expect_bind, pure_apply]

/-! ## While clauses -/

def whileClause (premise : Parsing.Parser Token ASTPremiseDefn) (fuel : Nat) :
    Parsing.Parser Token (List ASTPremiseDefn) := do
  expect .keywordWhile
  expect .lbrace
  let premises ← many isIdentifier premise fuel
  expect .rbrace
  return premises

def premiseTypeInferenceDefn (premise : Parsing.Parser Token ASTPremiseDefn) (fuel : Nat) :
    Parsing.Parser Token ASTInferencePremiseDefn := do
  let source ← identifiable fuel
  expect .colon
  let target ← deductionTarget fuel
  if ← next (· == .keywordWhile) then
    let body ← whileClause premise fuel
    expect .semicolon
    return ⟨source, target, some body⟩
  else
    expect .semicolon
    return ⟨source, target, none⟩

/-- Only the source of an inference premise is followed by one of these. -/
def followsName (token : Token) : Bool := token == .dot || token == .colon

def premiseDefn : Nat → Parsing.Parser Token ASTPremiseDefn
  | 0 => failure
  | fuel + 1 => do
      if ← nextButOne followsName then
        let defn ← premiseTypeInferenceDefn (premiseDefn fuel) fuel
        return .inferencePremise defn
      else
        let defn ← premiseTypeEqualityDefn fuel
        return .inferenceEquality defn

section WhileClause

variable {premise : Parsing.Parser Token ASTPremiseDefn} {fuel : Nat}

theorem premiseTypeInferenceDefn_starts :
    StartsWith Grammar.PremiseTypeInferenceDefn isIdentifier := by
  intro _ _ derived
  cases derived with
  | plain isSource => exact identifier_starts.separatedBy.append isSource _
  | whileLoop isSource => exact identifier_starts.separatedBy.append isSource _

theorem premiseTypeEqualityDefn_starts : StartsWith Grammar.PremiseTypeEqualityDefn isIdentifier := by
  intro _ _ derived
  cases derived with
  | plain isLhs => exact deductionTarget_starts.append isLhs _
  | ranged isLhs => exact deductionTarget_starts.append isLhs _

theorem premiseDefn_starts : StartsWith Grammar.PremiseDefn isIdentifier := by
  intro _ _ derived
  cases derived with
  | inferencePremise isInference => exact premiseTypeInferenceDefn_starts _ _ isInference
  | inferenceEquality isEquality => exact premiseTypeEqualityDefn_starts _ _ isEquality

theorem whileClause_starts : StartsWith Grammar.WhileClause (· == .keywordWhile) := by
  intro _ _ derived
  cases derived
  rfl

theorem whileClause_reads (reads : Reads fuel premise Grammar.PremiseDefn Anywhere) :
    Reads fuel (whileClause premise fuel) Grammar.WhileClause Anywhere where
  sound := by
    intro _ _ _ read
    obtain ⟨_, rfl, behindWord⟩ := expect_bind_eq_some.mp read
    obtain ⟨_, rfl, behindBrace⟩ := expect_bind_eq_some.mp behindWord
    obtain ⟨body, _, readBody, behindBody⟩ := bind_eq_some.mp behindBrace
    obtain ⟨tokens, rfl, isBody⟩ := many_sound reads fuel readBody
    obtain ⟨_, rfl, result⟩ := expect_bind_eq_some.mp behindBody
    obtain ⟨rfl, rfl⟩ := pure_eq_some.mp result
    exact ⟨_, by simp, .mk isBody⟩
  complete := by
    intro _ body rest isClause within _
    obtain @⟨tokens, _, isBody⟩ := isClause
    simp only [List.length_cons, List.length_append] at within
    have readBody : many isIdentifier premise fuel (tokens ++ .rbrace :: rest) =
        some (body, .rbrace :: rest) :=
      (reads.many premiseDefn_starts).complete isBody (by omega) rfl
    simp only [whileClause, List.append_assoc, List.cons_append, List.nil_append, expect_bind,
      bind_eq readBody, pure_apply]

/-- The source and the target are read before whatever a target may be followed by. -/
theorem inferenceHead_bind {α : Type} {fuel : Nat} {names tokens rest : List Token} {source : ASTIdentifiable}
    {target : ASTDeductionTarget} (isSource : Grammar.Identifiable names source)
    (isTarget : Grammar.DeductionTarget tokens target) (withinNames : names.length ≤ fuel)
    (withinTokens : tokens.length ≤ fuel) (behind : AfterTarget rest)
    (continues : ASTIdentifiable → ASTDeductionTarget → Parsing.Parser Token α) :
    (do
      let source ← identifiable fuel
      expect .colon
      let target ← deductionTarget fuel
      continues source target) (names ++ Token.colon :: (tokens ++ rest)) = continues source target rest := by
  have readSource : identifiable fuel (names ++ Token.colon :: (tokens ++ rest)) =
      some (source, .colon :: (tokens ++ rest)) :=
    (identifiable_reads fuel).complete isSource withinNames (by simp)
  have readTarget : deductionTarget fuel (tokens ++ rest) = some (target, rest) :=
    (deductionTarget_reads fuel).complete isTarget withinTokens behind
  rw [bind_eq readSource, expect_bind, bind_eq readTarget]

theorem premiseTypeInferenceDefn_reads (reads : Reads fuel premise Grammar.PremiseDefn Anywhere) :
    Reads (fuel + 1) (premiseTypeInferenceDefn premise fuel) Grammar.PremiseTypeInferenceDefn
      Anywhere where
  sound := by
    intro _ _ _ read
    obtain ⟨source, _, readSource, behindSource⟩ := bind_eq_some.mp read
    obtain ⟨names, rfl, isSource⟩ := (identifiable_reads fuel).sound readSource
    obtain ⟨_, rfl, behindColon⟩ := expect_bind_eq_some.mp behindSource
    obtain ⟨target, _, readTarget, behindTarget⟩ := bind_eq_some.mp behindColon
    obtain ⟨tokens, rfl, isTarget⟩ := (deductionTarget_reads fuel).sound readTarget
    rw [next_bind] at behindTarget
    split at behindTarget
    · obtain ⟨body, _, readLoop, behindLoop⟩ := bind_eq_some.mp behindTarget
      obtain ⟨loop, rfl, isLoop⟩ := (whileClause_reads reads).sound readLoop
      obtain ⟨_, rfl, result⟩ := expect_bind_eq_some.mp behindLoop
      obtain ⟨rfl, rfl⟩ := pure_eq_some.mp result
      exact ⟨_, by simp, .whileLoop isSource isTarget isLoop⟩
    · obtain ⟨_, rfl, result⟩ := expect_bind_eq_some.mp behindTarget
      obtain ⟨rfl, rfl⟩ := pure_eq_some.mp result
      exact ⟨_, by simp, .plain isSource isTarget⟩
  complete := by
    intro _ _ rest isPremise within _
    cases isPremise with
    | @plain names source tokens target isSource isTarget =>
        simp only [List.length_append, List.length_cons, List.length_nil] at within
        have noLoop : ((.semicolon :: rest).head?.any (· == Token.keywordWhile)) = false := rfl
        simp only [premiseTypeInferenceDefn, List.append_assoc, List.cons_append, List.nil_append]
        rw [inferenceHead_bind isSource isTarget (by omega) (by omega) (by simp [AfterTarget])]
        simp only [next_bind, noLoop, Bool.false_eq_true, if_false, expect_bind, pure_apply]
    | @whileLoop names source tokens target loop body isSource isTarget isLoop =>
        simp only [List.length_append, List.length_cons, List.length_nil] at within
        have behind : AfterTarget (loop ++ .semicolon :: rest) :=
          ⟨whileClause_starts.head?_ne isLoop _ rfl, whileClause_starts.head?_ne isLoop _ rfl⟩
        have readLoop : whileClause premise fuel (loop ++ .semicolon :: rest) =
            some (body, .semicolon :: rest) :=
          (whileClause_reads reads).complete isLoop (by omega) trivial
        have announced := whileClause_starts.append isLoop (.semicolon :: rest)
        simp only [premiseTypeInferenceDefn, List.append_assoc, List.cons_append, List.nil_append]
        rw [inferenceHead_bind isSource isTarget (by omega) (by omega) behind]
        simp only [next_bind, announced, if_true, bind_eq readLoop, expect_bind, pure_apply]

end WhileClause

theorem followsName_identifiable {names : List Token} {source : ASTIdentifiable}
    (isSource : Grammar.Identifiable names source) (rest : List Token) :
    (names ++ .colon :: rest)[1]?.any followsName = true := by
  unfold Grammar.Identifiable at isSource
  cases same : source.identifiers with
  | nil => exact absurd same isSource.ne_nil
  | cons root path =>
      rw [same] at isSource
      rcases isSource.uncons with ⟨-, ⟨⟩⟩ | ⟨first, more, rfl, ⟨⟩, -⟩
      · rfl
      · rfl

/-- Which kind of premise it is, its second token tells. -/
theorem followsName_inference {tokens : List Token} {defn : ASTInferencePremiseDefn}
    (isInference : Grammar.PremiseTypeInferenceDefn tokens defn) (rest : List Token) :
    (tokens ++ rest)[1]?.any followsName = true := by
  cases isInference with
  | plain isSource =>
      rw [List.append_assoc, List.cons_append]
      exact followsName_identifiable isSource _
  | whileLoop isSource =>
      rw [List.append_assoc, List.cons_append]
      exact followsName_identifiable isSource _

theorem followsName_equality {tokens : List Token} {defn : ASTInferenceEqualityDefn}
    (isEquality : Grammar.PremiseTypeEqualityDefn tokens defn) (rest : List Token) :
    (tokens ++ rest)[1]?.any followsName = false := by
  have behindTarget {left sign : List Token} {lhs : ASTDeductionTarget} {oprt : EqualityOperator}
      (isLhs : Grammar.DeductionTarget left lhs) (isSign : Grammar.EqualityOperator sign oprt)
      (rest : List Token) : (left ++ (sign ++ rest))[1]?.any followsName = false := by
    cases isLhs <;> cases isSign <;> rfl
  cases isEquality with
  | plain isLhs isSign =>
      rw [List.append_assoc, List.append_assoc]
      exact behindTarget isLhs isSign _
  | ranged isLhs isSign =>
      rw [List.append_assoc, List.append_assoc]
      exact behindTarget isLhs isSign _

theorem premiseDefn_reads (fuel : Nat) :
    Reads fuel (premiseDefn fuel) Grammar.PremiseDefn Anywhere := by
  induction fuel with
  | zero =>
      refine ⟨fun read => (by cases read), fun isPremise within _ => ?_⟩
      have nonempty := List.length_pos_iff.mpr (premiseDefn_starts.ne_nil isPremise)
      omega
  | succ fuel ih =>
      constructor
      · intro _ _ _ read
        rw [premiseDefn, nextButOne_bind] at read
        split at read
        · obtain ⟨defn, _, readDefn, result⟩ := bind_eq_some.mp read
          obtain ⟨rfl, rfl⟩ := pure_eq_some.mp result
          obtain ⟨tokens, rfl, isDefn⟩ := (premiseTypeInferenceDefn_reads ih).sound readDefn
          exact ⟨tokens, rfl, .inferencePremise isDefn⟩
        · obtain ⟨defn, _, readDefn, result⟩ := bind_eq_some.mp read
          obtain ⟨rfl, rfl⟩ := pure_eq_some.mp result
          obtain ⟨tokens, rfl, isDefn⟩ := (premiseTypeEqualityDefn_reads fuel).sound readDefn
          exact ⟨tokens, rfl, .inferenceEquality isDefn⟩
      · intro tokens _ rest isPremise within _
        cases isPremise with
        | @inferencePremise _ defn isDefn =>
            have readDefn : premiseTypeInferenceDefn (premiseDefn fuel) fuel (tokens ++ rest) =
                some (defn, rest) :=
              (premiseTypeInferenceDefn_reads ih).complete isDefn within trivial
            simp only [premiseDefn, nextButOne_bind, followsName_inference isDefn, if_true,
              bind_eq readDefn, pure_apply]
        | @inferenceEquality _ defn isDefn =>
            have readDefn : premiseTypeEqualityDefn fuel (tokens ++ rest) = some (defn, rest) :=
              (premiseTypeEqualityDefn_reads fuel).complete isDefn within trivial
            simp only [premiseDefn, nextButOne_bind, followsName_equality isDefn, Bool.false_eq_true,
              if_false, bind_eq readDefn, pure_apply]

end Parser

end Snowlake
