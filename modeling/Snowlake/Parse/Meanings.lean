import Mathlib.Tactic.IntervalCases
import Snowlake.Parse.ParserItems

/-! # What the symbols of the parser mean

Each nonterminal has a language of `Grammar` with values of its semantic type.
The productions with their actions derive just these.
-/

namespace Snowlake

open Parsing ShiftReduce

namespace ParserTab

/-! ## Terminals -/

/-- The tokens of a kind. -/
def Spelled : Terminal → Token → Prop
  | .endOfFile, _ => False
  | .keywordGroup, token => token = .keywordGroup
  | .keywordInference, token => token = .keywordInference
  | .keywordEnvironment, token => token = .keywordEnvironment
  | .keywordArguments, token => token = .keywordArguments
  | .keywordGlobals, token => token = .keywordGlobals
  | .keywordWhile, token => token = .keywordWhile
  | .keywordInrange, token => token = .keywordInrange
  | .keywordPremises, token => token = .keywordPremises
  | .keywordProposition, token => token = .keywordProposition
  | .integerLiteral, token => ∃ value, token = .integerLiteral value
  | .identifier, token => ∃ text, token = .identifier text
  | .dot, token => token = .dot
  | .comma, token => token = .comma
  | .colon, token => token = .colon
  | .semicolon, token => token = .semicolon
  | .lbracket, token => token = .lbracket
  | .rbracket, token => token = .rbracket
  | .lbrace, token => token = .lbrace
  | .rbrace, token => token = .rbrace
  | .lparen, token => token = .lparen
  | .rparen, token => token = .rparen
  | .operatorEq, token => token = .operatorEq
  | .operatorNeq, token => token = .operatorNeq
  | .operatorLt, token => token = .operatorLt
  | .operatorLte, token => token = .operatorLte
  | .ellipsis, token => token = .ellipsis

theorem spelled_terminal (token : Token) : Spelled token.terminal token := by
  cases token <;> simp [Token.terminal, Spelled]

/-! ## Nonterminals -/

/-- The type of the values of a nonterminal, as `%type` declares it. -/
abbrev declaredType : Nonterminal → SemanticType
  | .accept => .empty
  | .input => .module
  | .inferenceGroupList => .inferenceGroupList
  | .inferenceGroup => .inferenceGroup
  | .environmentDefnList => .environmentDefnList
  | .environmentDefn => .environmentDefn
  | .inferenceDefnList => .inferenceDefnList
  | .inferenceDefn => .inferenceDefn
  | .globalDeclSet | .globalDeclList => .globalDeclList
  | .globalDecl => .globalDecl
  | .argumentSet | .argumentList => .inferenceArgumentList
  | .inferenceArgument => .inferenceArgument
  | .premiseSet | .premiseDefnList => .premiseDefnList
  | .premiseDefn => .premiseDefn
  | .premiseTypeInferenceDefn => .inferencePremiseDefn
  | .whileClause => .whileClause
  | .premiseTypeEqualityDefn => .inferenceEqualityDefn
  | .rangeClause => .rangeClause
  | .propositionDefn => .propositionDefn
  | .identifiable => .identifiable
  | .identifier => .identifier
  | .deductionTargetList => .deductionTargetList
  | .deductionTarget => .deductionTarget
  | .deductionTargetSingular => .deductionTargetSingular
  | .deductionTargetArray => .deductionTargetArray
  | .deductionTargetComputed => .deductionTargetComputed
  | .equalityOperator => .equalityOperator

/-- The language of a nonterminal, but for the two that no other is made of. -/
abbrev Meaning : (name : Nonterminal) → Language Token (declaredType name).denote
  | .accept | .input => fun _ _ => False
  | .inferenceGroupList => Grammar.InferenceGroupList
  | .inferenceGroup => Grammar.InferenceGroup
  | .environmentDefnList => Grammar.EnvironmentDefnList
  | .environmentDefn => Grammar.EnvironmentDefn
  | .inferenceDefnList => Grammar.InferenceDefnList
  | .inferenceDefn => Grammar.InferenceDefn
  | .globalDeclSet => Grammar.GlobalDeclSet
  | .globalDeclList => Grammar.GlobalDeclList
  | .globalDecl => Grammar.GlobalDecl
  | .argumentSet => Grammar.ArgumentSet
  | .argumentList => Grammar.ArgumentList
  | .inferenceArgument => Grammar.InferenceArgument
  | .premiseSet => Grammar.PremiseSet
  | .premiseDefnList => Grammar.PremiseDefnList
  | .premiseDefn => Grammar.PremiseDefn
  | .premiseTypeInferenceDefn => Grammar.PremiseTypeInferenceDefn
  | .whileClause => Grammar.WhileClause
  | .premiseTypeEqualityDefn => Grammar.PremiseTypeEqualityDefn
  | .rangeClause => Grammar.RangeClause
  | .propositionDefn => Grammar.PropositionDefn
  | .identifiable => Grammar.Identifiable
  | .identifier => Grammar.Identifier
  | .deductionTargetList => SeparatedBy .comma Grammar.DeductionTarget
  | .deductionTarget => Grammar.DeductionTarget
  | .deductionTargetSingular => fun tokens name => Grammar.DeductionTarget tokens (.singular name)
  | .deductionTargetArray => fun tokens array => Grammar.DeductionTarget tokens (.array array.1 array.2)
  | .deductionTargetComputed => fun tokens call =>
      Grammar.DeductionTarget tokens (.computed call.1 call.2)
  | .equalityOperator => Grammar.EqualityOperator

/-! ## From derivations to meanings -/

/-- The conclusion holds of whatever tokens and values the symbols stand for. -/
def Always (conclusion : List Token → List Value → Prop) : List GrammarSymbol → Prop
  | [] => conclusion [] []
  | .terminal kind :: symbols => ∀ token, Spelled kind token →
      Always (fun tokens values => conclusion (token :: tokens) (leaf (some token) :: values)) symbols
  | [.nonterminal name] => ∀ tokens value, Meaning name tokens value →
      conclusion tokens [⟨declaredType name, value⟩]
  | .nonterminal name :: symbols => ∀ front value, Meaning name front value →
      Always (fun tokens values => conclusion (front ++ tokens) (⟨declaredType name, value⟩ :: values)) symbols

/-- The action builds a value of the left hand side from those of the right one. -/
def Justified (rule : ℕ) : Prop :=
  Always (fun tokens values => ∃ value, Meaning (lhs rule) tokens value ∧
    ∀ driver, act rule values driver = some (⟨declaredType (lhs rule), value⟩, driver)) (rhs rule)

@[simp] theorem leaf_identifier (name : StringType) :
    leaf (some (.identifier name)) = ⟨.string, name⟩ := by
  have made : leaf (some (.identifier name)) = ⟨.string, String.ofList name.toList⟩ := rfl
  rw [made, String.ofList_toList]

theorem justified_inferenceGroupList : Justified 3 ∧ Justified 4 := by
  constructor
  · exact ⟨_, .nil, fun _ => rfl⟩
  · rintro _ _ isList _ _ isGroup
    exact ⟨_, .snoc isList isGroup, fun _ => rfl⟩

theorem justified_inferenceGroup : Justified 5 := by
  rintro _ rfl _ ⟨name, rfl⟩ _ rfl _ _ isEnvironment _ _ isInferences _ rfl
  rw [leaf_identifier]
  exact ⟨_, .mk isEnvironment isInferences, fun _ => rfl⟩

theorem justified_environmentDefnList : Justified 6 ∧ Justified 7 := by
  constructor
  · exact ⟨_, .nil, fun _ => rfl⟩
  · rintro _ _ isList _ _ isDefn
    exact ⟨_, .snoc isList isDefn, fun _ => rfl⟩

theorem justified_environmentDefn : Justified 8 := by
  rintro _ ⟨field, rfl⟩ _ rfl _ ⟨value, rfl⟩ _ rfl
  rw [leaf_identifier, leaf_identifier]
  exact ⟨_, .mk field value, fun _ => rfl⟩

theorem justified_inferenceDefnList : Justified 9 ∧ Justified 10 := by
  constructor
  · exact ⟨_, .nil, fun _ => rfl⟩
  · rintro _ _ isList _ _ isDefn
    exact ⟨_, .snoc isList isDefn, fun _ => rfl⟩

theorem justified_inferenceDefn : Justified 11 := by
  rintro _ rfl _ ⟨name, rfl⟩ _ rfl _ _ isGlobals _ _ isArguments _ _ isPremises _ _ isProposition _ rfl
  rw [leaf_identifier]
  exact ⟨_, .mk isGlobals isArguments isPremises isProposition, fun _ => rfl⟩

theorem justified_globalDeclSet : Justified 12 ∧ Justified 13 := by
  constructor
  · exact ⟨_, .empty, fun _ => rfl⟩
  · rintro _ rfl _ rfl _ rfl _ _ isList _ rfl
    exact ⟨_, .mk isList, fun _ => rfl⟩

theorem justified_globalDeclList : Justified 14 ∧ Justified 15 := by
  constructor
  · rintro _ _ isDecl
    exact ⟨_, .one isDecl, fun _ => rfl⟩
  · rintro _ _ isList _ rfl _ _ isDecl
    exact ⟨_, .snoc isList isDecl, fun _ => rfl⟩

theorem justified_globalDecl : Justified 16 := by
  rintro _ ⟨name, rfl⟩
  rw [leaf_identifier]
  exact ⟨_, .mk name, fun _ => rfl⟩

theorem justified_argumentSet : Justified 17 ∧ Justified 18 := by
  constructor
  · rintro _ rfl _ rfl _ rfl _ rfl
    exact ⟨_, .empty, fun _ => rfl⟩
  · rintro _ rfl _ rfl _ rfl _ _ isList _ rfl
    exact ⟨_, .mk isList, fun _ => rfl⟩

theorem justified_argumentList : Justified 19 ∧ Justified 20 := by
  constructor
  · rintro _ _ isArgument
    exact ⟨_, .one isArgument, fun _ => rfl⟩
  · rintro _ _ isList _ rfl _ _ isArgument
    exact ⟨_, .snoc isList isArgument, fun _ => rfl⟩

theorem justified_inferenceArgument : Justified 21 := by
  rintro _ ⟨name, rfl⟩ _ rfl _ ⟨typeName, rfl⟩
  rw [leaf_identifier, leaf_identifier]
  exact ⟨_, .mk name typeName, fun _ => rfl⟩

theorem justified_premiseSet : Justified 22 := by
  rintro _ rfl _ rfl _ rfl _ _ isList _ rfl
  exact ⟨_, .mk isList, fun _ => rfl⟩

theorem justified_premiseDefnList : Justified 23 ∧ Justified 24 := by
  constructor
  · exact ⟨_, .nil, fun _ => rfl⟩
  · rintro _ _ isList _ _ isPremise
    exact ⟨_, .snoc isList isPremise, fun _ => rfl⟩

theorem justified_premiseDefn : Justified 25 ∧ Justified 26 := by
  constructor
  · rintro _ _ isDefn
    exact ⟨_, .inferencePremise isDefn, fun _ => rfl⟩
  · rintro _ _ isDefn
    exact ⟨_, .inferenceEquality isDefn, fun _ => rfl⟩

theorem justified_premiseTypeInferenceDefn : Justified 27 ∧ Justified 28 := by
  constructor
  · rintro _ _ isSource _ rfl _ _ isTarget _ rfl
    exact ⟨_, .plain isSource isTarget, fun _ => rfl⟩
  · rintro _ _ isSource _ rfl _ _ isTarget _ _ isClause _ rfl
    exact ⟨_, .whileLoop isSource isTarget isClause, fun _ => rfl⟩

theorem justified_whileClause : Justified 29 := by
  rintro _ rfl _ rfl _ _ isList _ rfl
  exact ⟨_, .mk isList, fun _ => rfl⟩

theorem justified_premiseTypeEqualityDefn : Justified 30 ∧ Justified 31 := by
  constructor
  · rintro _ _ isLhs _ _ isOprt _ _ isRhs _ rfl
    exact ⟨_, .plain isLhs isOprt isRhs, fun _ => rfl⟩
  · rintro _ _ isLhs _ _ isOprt _ _ isRhs _ _ isClause _ rfl
    exact ⟨_, .ranged isLhs isOprt isRhs isClause, fun _ => rfl⟩

theorem justified_rangeClause : Justified 32 := by
  rintro _ rfl _ ⟨lhsIdx, rfl⟩ _ rfl _ ⟨rhsIdx, rfl⟩ _ rfl _ _ isTarget
  exact ⟨_, .mk isTarget, fun _ => rfl⟩

theorem justified_propositionDefn : Justified 33 := by
  rintro _ rfl _ rfl _ _ isTarget _ rfl
  exact ⟨_, .mk isTarget, fun _ => rfl⟩

theorem justified_identifiable : Justified 34 ∧ Justified 35 := by
  constructor
  · rintro _ _ isIdentifier
    exact ⟨_, SeparatedBy.one isIdentifier, fun _ => rfl⟩
  · rintro _ _ isIdentifiable _ rfl _ _ isIdentifier
    exact ⟨_, SeparatedBy.snoc isIdentifiable isIdentifier, fun _ => rfl⟩

theorem justified_identifier : Justified 36 := by
  rintro _ ⟨text, rfl⟩
  rw [leaf_identifier]
  exact ⟨_, .mk text, fun _ => rfl⟩

theorem justified_deductionTargetList : Justified 37 ∧ Justified 38 := by
  constructor
  · rintro _ _ isTarget
    exact ⟨_, .one isTarget, fun _ => rfl⟩
  · rintro _ _ isList _ rfl _ _ isTarget
    exact ⟨_, .snoc isList isTarget, fun _ => rfl⟩

theorem justified_deductionTarget : Justified 39 ∧ Justified 40 ∧ Justified 41 := by
  refine ⟨?_, ?_, ?_⟩
  · rintro _ _ isTarget
    exact ⟨_, isTarget, fun _ => rfl⟩
  · rintro _ _ isTarget
    exact ⟨_, isTarget, fun _ => rfl⟩
  · rintro _ _ isTarget
    exact ⟨_, isTarget, fun _ => rfl⟩

theorem justified_deductionTargetSingular : Justified 42 := by
  rintro _ ⟨name, rfl⟩
  rw [leaf_identifier]
  exact ⟨_, .singular name, fun _ => rfl⟩

theorem justified_deductionTargetArray : Justified 43 ∧ Justified 44 := by
  constructor
  · rintro _ ⟨name, rfl⟩ _ rfl _ rfl
    rw [leaf_identifier]
    exact ⟨(name, none), .array name, fun _ => rfl⟩
  · rintro _ ⟨name, rfl⟩ _ rfl _ ⟨size, rfl⟩ _ rfl
    rw [leaf_identifier]
    exact ⟨(name, some size), .arrayOfSize name size, fun _ => rfl⟩

theorem justified_deductionTargetComputed : Justified 45 ∧ Justified 46 := by
  constructor
  · rintro _ ⟨name, rfl⟩ _ rfl _ rfl
    rw [leaf_identifier]
    exact ⟨(name, []), .computed name, fun _ => rfl⟩
  · rintro _ ⟨name, rfl⟩ _ rfl _ _ isList _ rfl
    rw [leaf_identifier]
    exact ⟨(name, _), .computedOf isList, fun _ => rfl⟩

theorem justified_equalityOperator : Justified 47 ∧ Justified 48 ∧ Justified 49 ∧ Justified 50 := by
  refine ⟨?_, ?_, ?_, ?_⟩
  · rintro _ rfl
    exact ⟨_, .operatorEq, fun _ => rfl⟩
  · rintro _ rfl
    exact ⟨_, .operatorNeq, fun _ => rfl⟩
  · rintro _ rfl
    exact ⟨_, .operatorLt, fun _ => rfl⟩
  · rintro _ rfl
    exact ⟨_, .operatorLte, fun _ => rfl⟩

theorem justified {rule : ℕ} (member : rule ∈ rules.all) (inner : 2 < rule) : Justified rule := by
  have bound : ∀ rule ∈ rules.all, rule < 51 := by decide
  have below := bound rule member
  interval_cases rule
  exacts [justified_inferenceGroupList.1, justified_inferenceGroupList.2, justified_inferenceGroup,
    justified_environmentDefnList.1, justified_environmentDefnList.2, justified_environmentDefn,
    justified_inferenceDefnList.1, justified_inferenceDefnList.2, justified_inferenceDefn,
    justified_globalDeclSet.1, justified_globalDeclSet.2, justified_globalDeclList.1,
    justified_globalDeclList.2, justified_globalDecl, justified_argumentSet.1, justified_argumentSet.2,
    justified_argumentList.1, justified_argumentList.2, justified_inferenceArgument,
    justified_premiseSet, justified_premiseDefnList.1, justified_premiseDefnList.2,
    justified_premiseDefn.1, justified_premiseDefn.2, justified_premiseTypeInferenceDefn.1,
    justified_premiseTypeInferenceDefn.2, justified_whileClause, justified_premiseTypeEqualityDefn.1,
    justified_premiseTypeEqualityDefn.2, justified_rangeClause, justified_propositionDefn,
    justified_identifiable.1, justified_identifiable.2, justified_identifier,
    justified_deductionTargetList.1, justified_deductionTargetList.2, justified_deductionTarget.1,
    justified_deductionTarget.2.1, justified_deductionTarget.2.2, justified_deductionTargetSingular,
    justified_deductionTargetArray.1, justified_deductionTargetArray.2,
    justified_deductionTargetComputed.1, justified_deductionTargetComputed.2,
    justified_equalityOperator.1, justified_equalityOperator.2.1, justified_equalityOperator.2.2.1,
    justified_equalityOperator.2.2.2]

/-- The symbols that stand in no right hand side but that of the first production. -/
def outer : List GrammarSymbol := [.terminal .endOfFile, .nonterminal .accept, .nonterminal .input]

theorem rhs_inner : ∀ rule ∈ rules.all, rule ≠ rules.goal → ∀ symbol ∈ rhs rule, symbol ∉ outer := by
  decide

theorem inner_lhs : ∀ rule ∈ rules.all, .nonterminal (lhs rule) ∉ outer → 2 < rule := by
  decide

/-- Derivations are by the meanings of the symbols, and leave the driver. -/
theorem Always.of_derives {conclusion : List Token → List Value → Prop} {symbols : List GrammarSymbol}
    (always : Always conclusion symbols) {tokens : List (Option Token)} {before after : ParserDriver}
    {values : List Value} (derives : Derives rules semantics symbols tokens before values after)
    (inner : ∀ symbol ∈ symbols, symbol ∉ outer) :
    ∃ body, tokens = body.map some ∧ after = before ∧ conclusion body values := by
  induction derives generalizing conclusion with
  | nil => exact ⟨[], rfl, rfl, always⟩
  | @terminal token symbols tokens before values after _ ih =>
      cases token with
      | none => exact absurd (by decide) (inner _ List.mem_cons_self)
      | some token =>
          obtain ⟨body, rfl, rfl, holds⟩ :=
            ih (always token (spelled_terminal token))
              fun symbol member => inner symbol (List.mem_cons_of_mem _ member)
          exact ⟨token :: body, rfl, rfl, holds⟩
  | @nonterminal rule body before children between value acted symbols tokens values after member
      notGoal _ same _ ihBody ihRest =>
      have inList : 2 < rule := inner_lhs rule member (inner _ List.mem_cons_self)
      obtain ⟨front, rfl, rfl, made, means, acts⟩ :=
        ihBody (justified member inList) (rhs_inner rule member notGoal)
      obtain ⟨rfl, rfl⟩ := Prod.mk.inj (Option.some.inj (same.symm.trans (acts _)))
      have others := fun symbol member => inner symbol (List.mem_cons_of_mem _ member)
      cases symbols with
      | nil =>
          have nothing : Always (fun tokens values => tokens = [] ∧ values = []) [] := ⟨rfl, rfl⟩
          obtain ⟨rest, rfl, rfl, rfl, rfl⟩ := ihRest nothing others
          refine ⟨front, by simp, rfl, ?_⟩
          exact always front made means
      | cons symbol symbols =>
          obtain ⟨rest, rfl, rfl, holds⟩ := ihRest (always front made means) others
          exact ⟨front ++ rest, by simp, rfl, holds⟩

theorem always_groups : Always (fun tokens values => ∃ groups,
    Grammar.InferenceGroupList tokens groups ∧ values = [⟨.inferenceGroupList, groups⟩]) (rhs 2) :=
  fun _ groups isList => ⟨groups, isList, rfl⟩

/-- No `as` fails, and each action has the values of its right hand side. -/
theorem actions_succeed : ActionsSucceed rules semantics := by
  intro rule member notGoal tokens before values after derives
  by_cases isInput : rule = 2
  · subst isInput
    obtain ⟨_, _, _, groups, -, rfl⟩ := always_groups.of_derives derives (rhs_inner 2 member notGoal)
    rfl
  · have inList : 2 < rule := by
      have least : ∀ rule ∈ rules.all, rule ≠ rules.goal → rule ≠ 2 → 2 < rule := by decide
      exact least rule member notGoal isInput
    obtain ⟨_, _, _, _, _, acts⟩ :=
      (justified member inList).of_derives derives (rhs_inner rule member notGoal)
    exact Option.isSome_iff_exists.mpr ⟨_, acts after⟩

end ParserTab

end Snowlake
