import Snowlake.Parse.Meanings

/-! # What the productions derive

The languages of `Grammar` are derived by the productions, so that the sentences
of the parser are the inputs of the grammar.
-/

namespace Snowlake

open Parsing ShiftReduce

namespace ParserTab

/-- The productions derive the tokens, and the driver stays. -/
def Derived (symbols : List GrammarSymbol) (tokens : List Token) (values : List Value) : Prop :=
  ∀ driver, Derives rules semantics symbols (tokens.map some) driver values driver

/-- The tokens of a nonterminal with their value. -/
abbrev DerivedAs (name : Nonterminal) (tokens : List Token) (value : (declaredType name).denote) : Prop :=
  Derived [.nonterminal name] tokens [⟨declaredType name, value⟩]

namespace Derived

variable {symbols : List GrammarSymbol} {tokens : List Token} {values : List Value}

theorem nil : Derived [] [] [] := fun driver => .nil driver

theorem token (token : Token) (rest : Derived symbols tokens values) :
    Derived (.terminal token.terminal :: symbols) (token :: tokens) (leaf (some token) :: values) :=
  fun driver => .terminal (some token) (rest driver)

theorem phrase {name : Nonterminal} {front : List Token} {value : Value}
    (first : Derived [.nonterminal name] front [value]) (rest : Derived symbols tokens values) :
    Derived (.nonterminal name :: symbols) (front ++ tokens) (value :: values) := by
  intro driver
  rw [List.map_append]
  exact (first driver).append (rest driver)

theorem produce (rule : ℕ) (inside : decide (1 < rule ∧ rule < 51) = true) {value : Value}
    (body : Derived (rhs rule) tokens values)
    (acts : ∀ driver, act rule values driver = some (value, driver)) :
    Derived [.nonterminal (lhs rule)] tokens [value] := by
  intro driver
  have members : ∀ rule < 51, 1 < rule → rule ∈ rules.all ∧ rule ≠ rules.goal := by decide
  obtain ⟨above, below⟩ := of_decide_eq_true inside
  obtain ⟨member, notGoal⟩ := members rule below above
  have whole := Derives.nonterminal member notGoal (body driver) (acts driver) (.nil driver)
  rwa [List.append_nil] at whole

/-- A list of what the productions derive, by the two productions for it. -/
theorem of_listOf {α : Type} {item : Language Token α} {list element : Nonterminal}
    (wrapList : List α → Value) (wrap : α → Value) (empty : Derived [.nonterminal list] [] [wrapList []])
    (snoc : ∀ {tokens values more value}, Derived [.nonterminal list] tokens [wrapList values] →
      Derived [.nonterminal element] more [wrap value] →
      Derived [.nonterminal list] (tokens ++ more) [wrapList (values ++ [value])])
    {tokens : List Token} {values : List α} (isList : ListOf item tokens values)
    (items : ∀ {more value}, more.length ≤ tokens.length → item more value →
      Derived [.nonterminal element] more [wrap value]) :
    Derived [.nonterminal list] tokens [wrapList values] := by
  induction isList with
  | nil => exact empty
  | snoc before last ih =>
      simp only [List.length_append] at items
      exact snoc (ih fun within => items (by omega)) (items (by omega) last)

theorem of_separatedBy {α : Type} {item : Language Token α} {separator : Token}
    {list element : Nonterminal} (wrapList : List α → Value) (wrap : α → Value)
    (one : ∀ {tokens value}, Derived [.nonterminal element] tokens [wrap value] →
      Derived [.nonterminal list] tokens [wrapList [value]])
    (snoc : ∀ {tokens values more value}, Derived [.nonterminal list] tokens [wrapList values] →
      Derived [.nonterminal element] more [wrap value] →
      Derived [.nonterminal list] (tokens ++ separator :: more) [wrapList (values ++ [value])])
    {tokens : List Token} {values : List α} (isList : SeparatedBy separator item tokens values)
    (items : ∀ {more value}, more.length ≤ tokens.length → item more value →
      Derived [.nonterminal element] more [wrap value]) :
    Derived [.nonterminal list] tokens [wrapList values] := by
  induction isList with
  | one first => exact one (items (Nat.le_refl _) first)
  | snoc before last ih =>
      simp only [List.length_append, List.length_cons] at items
      exact snoc (ih fun within => items (by omega)) (items (by omega) last)

end Derived

open Derived

variable {tokens : List Token}

/-! ## Targets -/

theorem identifier_derived {text : ASTIdentifier} (isIdentifier : Grammar.Identifier tokens text) :
    DerivedAs .identifier tokens text := by
  obtain ⟨text⟩ := isIdentifier
  refine produce 36 rfl (token (.identifier text) nil) fun driver => ?_
  rw [leaf_identifier]
  rfl

theorem identifiable_derived {identifiable : ASTIdentifiable}
    (isIdentifiable : Grammar.Identifiable tokens identifiable) :
    DerivedAs .identifiable tokens identifiable := by
  refine of_separatedBy (fun names => ⟨.identifiable, ⟨names⟩⟩) (fun name => ⟨.identifier, name⟩)
    ?_ ?_ isIdentifiable fun _ => identifier_derived
  · exact fun first => produce 34 rfl first fun _ => rfl
  · exact fun before last => produce 35 rfl (phrase before (token .dot last)) fun _ => rfl

theorem equalityOperator_derived {oprt : EqualityOperator}
    (isOprt : Grammar.EqualityOperator tokens oprt) : DerivedAs .equalityOperator tokens oprt := by
  cases isOprt with
  | operatorEq => exact produce 47 rfl (token .operatorEq nil) fun _ => rfl
  | operatorNeq => exact produce 48 rfl (token .operatorNeq nil) fun _ => rfl
  | operatorLt => exact produce 49 rfl (token .operatorLt nil) fun _ => rfl
  | operatorLte => exact produce 50 rfl (token .operatorLte nil) fun _ => rfl

theorem singular_derived (name : StringType) :
    DerivedAs .deductionTargetSingular [.identifier name] name := by
  refine produce 42 rfl (token (.identifier name) nil) fun driver => ?_
  rw [leaf_identifier]
  rfl

theorem array_derived (name : StringType) :
    DerivedAs .deductionTargetArray [.identifier name, .lbracket, .rbracket] (name, none) := by
  refine produce 43 rfl (token (.identifier name) (token .lbracket (token .rbracket nil))) fun driver => ?_
  rw [leaf_identifier]
  rfl

theorem arrayOfSize_derived (name : StringType) (size : IntegerType) :
    DerivedAs .deductionTargetArray
      [.identifier name, .lbracket, .integerLiteral size, .rbracket] (name, some size) := by
  refine produce 44 rfl (token (.identifier name) (token .lbracket
    (token (.integerLiteral size) (token .rbracket nil)))) fun driver => ?_
  rw [leaf_identifier]
  rfl

theorem computed_derived (name : StringType) :
    DerivedAs .deductionTargetComputed [.identifier name, .lparen, .rparen] (name, []) := by
  refine produce 45 rfl (token (.identifier name) (token .lparen (token .rparen nil))) fun driver => ?_
  rw [leaf_identifier]
  rfl

theorem computedOf_derived (name : StringType) {targets : List ASTDeductionTarget}
    (list : DerivedAs .deductionTargetList tokens targets) :
    DerivedAs .deductionTargetComputed (.identifier name :: .lparen :: (tokens ++ [.rparen]))
      (name, targets) := by
  refine produce 46 rfl (token (.identifier name) (token .lparen
    (phrase list (token .rparen nil)))) fun driver => ?_
  rw [leaf_identifier]
  rfl

theorem deductionTargetList_derived {targets : List ASTDeductionTarget}
    (isList : SeparatedBy .comma Grammar.DeductionTarget tokens targets)
    (items : ∀ {more target}, more.length ≤ tokens.length → Grammar.DeductionTarget more target →
      DerivedAs .deductionTarget more target) : DerivedAs .deductionTargetList tokens targets := by
  refine of_separatedBy (fun targets => ⟨.deductionTargetList, targets⟩)
    (fun target => ⟨.deductionTarget, target⟩) ?_ ?_ isList items
  · exact fun first => produce 37 rfl first fun _ => rfl
  · exact fun before last => produce 38 rfl (phrase before (token .comma last)) fun _ => rfl

theorem deductionTarget_derived {target : ASTDeductionTarget}
    (isTarget : Grammar.DeductionTarget tokens target) : DerivedAs .deductionTarget tokens target := by
  -- the targets of a list are shorter
  induction size : tokens.length using Nat.strongRecOn generalizing tokens target with
  | _ size ih =>
      cases isTarget with
      | singular name => exact produce 39 rfl (singular_derived name) fun _ => rfl
      | array name => exact produce 40 rfl (array_derived name) fun _ => rfl
      | arrayOfSize name count => exact produce 40 rfl (arrayOfSize_derived name count) fun _ => rfl
      | computed name => exact produce 41 rfl (computed_derived name) fun _ => rfl
      | @computedOf name list targets isList =>
          simp only [List.length_cons, List.length_append] at size
          have listed : DerivedAs .deductionTargetList list targets :=
            deductionTargetList_derived isList fun within isTarget =>
              ih _ (by omega) isTarget rfl
          exact produce 41 rfl (computedOf_derived name listed) fun _ => rfl

/-! ## Premises -/

theorem rangeClause_derived {range : ASTRangeClause} (isRange : Grammar.RangeClause tokens range) :
    DerivedAs .rangeClause tokens range := by
  obtain @⟨lhsIdx, rhsIdx, _, _, isTarget⟩ := isRange
  exact produce 32 rfl (token .keywordInrange (token (.integerLiteral lhsIdx) (token .ellipsis
    (token (.integerLiteral rhsIdx) (token .ellipsis (deductionTarget_derived isTarget)))))) fun _ => rfl

theorem premiseTypeEqualityDefn_derived {defn : ASTInferenceEqualityDefn}
    (isDefn : Grammar.PremiseTypeEqualityDefn tokens defn) :
    DerivedAs .premiseTypeEqualityDefn tokens defn := by
  cases isDefn with
  | plain isLhs isOprt isRhs =>
      exact produce 30 rfl (phrase (deductionTarget_derived isLhs) (phrase (equalityOperator_derived isOprt)
        (phrase (deductionTarget_derived isRhs) (token .semicolon nil)))) fun _ => rfl
  | ranged isLhs isOprt isRhs isRange =>
      exact produce 31 rfl (phrase (deductionTarget_derived isLhs) (phrase (equalityOperator_derived isOprt)
        (phrase (deductionTarget_derived isRhs) (phrase (rangeClause_derived isRange)
          (token .semicolon nil))))) fun _ => rfl

theorem premiseDefnList_derived {premises : List ASTPremiseDefn}
    (isList : Grammar.PremiseDefnList tokens premises)
    (items : ∀ {more premise}, more.length ≤ tokens.length → Grammar.PremiseDefn more premise →
      DerivedAs .premiseDefn more premise) : DerivedAs .premiseDefnList tokens premises := by
  refine of_listOf (fun premises => ⟨.premiseDefnList, premises⟩)
    (fun premise => ⟨.premiseDefn, premise⟩) ?_ ?_ isList items
  · exact produce 23 rfl nil fun _ => rfl
  · exact fun before last => produce 24 rfl (phrase before last) fun _ => rfl

theorem whileClause_derived {body : List ASTPremiseDefn} (isClause : Grammar.WhileClause tokens body)
    (items : ∀ {more premise}, more.length < tokens.length → Grammar.PremiseDefn more premise →
      DerivedAs .premiseDefn more premise) : DerivedAs .whileClause tokens body := by
  obtain ⟨isList⟩ := isClause
  simp only [List.length_cons, List.length_append] at items
  have listed := premiseDefnList_derived isList fun within => items (by omega)
  exact produce 29 rfl (token .keywordWhile (token .lbrace (phrase listed (token .rbrace nil)))) fun _ => rfl

theorem premiseTypeInferenceDefn_derived {defn : ASTInferencePremiseDefn}
    (isDefn : Grammar.PremiseTypeInferenceDefn tokens defn)
    (items : ∀ {more premise}, more.length < tokens.length → Grammar.PremiseDefn more premise →
      DerivedAs .premiseDefn more premise) : DerivedAs .premiseTypeInferenceDefn tokens defn := by
  cases isDefn with
  | plain isSource isTarget =>
      exact produce 27 rfl (phrase (identifiable_derived isSource) (token .colon
        (phrase (deductionTarget_derived isTarget) (token .semicolon nil)))) fun _ => rfl
  | whileLoop isSource isTarget isClause =>
      simp only [List.length_cons, List.length_append] at items
      have clause := whileClause_derived isClause fun within => items (by omega)
      exact produce 28 rfl (phrase (identifiable_derived isSource) (token .colon
        (phrase (deductionTarget_derived isTarget) (phrase clause (token .semicolon nil))))) fun _ => rfl

theorem premiseDefn_derived {premise : ASTPremiseDefn} (isPremise : Grammar.PremiseDefn tokens premise) :
    DerivedAs .premiseDefn tokens premise := by
  -- the premises of a clause are shorter
  induction size : tokens.length using Nat.strongRecOn generalizing tokens premise with
  | _ size ih =>
      cases isPremise with
      | inferencePremise isDefn =>
          have defn := premiseTypeInferenceDefn_derived isDefn fun within isPremise =>
            ih _ (by omega) isPremise rfl
          exact produce 25 rfl defn fun _ => rfl
      | inferenceEquality isDefn =>
          exact produce 26 rfl (premiseTypeEqualityDefn_derived isDefn) fun _ => rfl

/-! ## Inferences -/

theorem premiseSet_derived {premises : List ASTPremiseDefn} (isSet : Grammar.PremiseSet tokens premises) :
    DerivedAs .premiseSet tokens premises := by
  obtain ⟨isList⟩ := isSet
  have listed := premiseDefnList_derived isList fun _ => premiseDefn_derived
  exact produce 22 rfl (token .keywordPremises (token .colon (token .lbracket
    (phrase listed (token .rbracket nil))))) fun _ => rfl

theorem propositionDefn_derived {defn : ASTPropositionDefn}
    (isDefn : Grammar.PropositionDefn tokens defn) : DerivedAs .propositionDefn tokens defn := by
  obtain ⟨isTarget⟩ := isDefn
  exact produce 33 rfl (token .keywordProposition (token .colon
    (phrase (deductionTarget_derived isTarget) (token .semicolon nil)))) fun _ => rfl

theorem inferenceArgument_derived {argument : ASTInferenceArgument}
    (isArgument : Grammar.InferenceArgument tokens argument) :
    DerivedAs .inferenceArgument tokens argument := by
  obtain ⟨name, typeName⟩ := isArgument
  refine produce 21 rfl (token (.identifier name) (token .colon
    (token (.identifier typeName) nil))) fun driver => ?_
  rw [leaf_identifier, leaf_identifier]
  rfl

theorem argumentList_derived {arguments : List ASTInferenceArgument}
    (isList : Grammar.ArgumentList tokens arguments) : DerivedAs .argumentList tokens arguments := by
  refine of_separatedBy (fun arguments => ⟨.inferenceArgumentList, arguments⟩)
    (fun argument => ⟨.inferenceArgument, argument⟩) ?_ ?_ isList fun _ => inferenceArgument_derived
  · exact fun first => produce 19 rfl first fun _ => rfl
  · exact fun before last => produce 20 rfl (phrase before (token .comma last)) fun _ => rfl

theorem argumentSet_derived {arguments : List ASTInferenceArgument}
    (isSet : Grammar.ArgumentSet tokens arguments) : DerivedAs .argumentSet tokens arguments := by
  cases isSet with
  | empty =>
      exact produce 17 rfl (token .keywordArguments (token .colon (token .lbracket
        (token .rbracket nil)))) fun _ => rfl
  | mk isList =>
      exact produce 18 rfl (token .keywordArguments (token .colon (token .lbracket
        (phrase (argumentList_derived isList) (token .rbracket nil))))) fun _ => rfl

theorem globalDecl_derived {decl : ASTGlobalDecl} (isDecl : Grammar.GlobalDecl tokens decl) :
    DerivedAs .globalDecl tokens decl := by
  obtain ⟨name⟩ := isDecl
  refine produce 16 rfl (token (.identifier name) nil) fun driver => ?_
  rw [leaf_identifier]
  rfl

theorem globalDeclList_derived {decls : List ASTGlobalDecl} (isList : Grammar.GlobalDeclList tokens decls) :
    DerivedAs .globalDeclList tokens decls := by
  refine of_separatedBy (fun decls => ⟨.globalDeclList, decls⟩) (fun decl => ⟨.globalDecl, decl⟩)
    ?_ ?_ isList fun _ => globalDecl_derived
  · exact fun first => produce 14 rfl first fun _ => rfl
  · exact fun before last => produce 15 rfl (phrase before (token .comma last)) fun _ => rfl

theorem globalDeclSet_derived {decls : List ASTGlobalDecl} (isSet : Grammar.GlobalDeclSet tokens decls) :
    DerivedAs .globalDeclSet tokens decls := by
  cases isSet with
  | empty => exact produce 12 rfl nil fun _ => rfl
  | mk isList =>
      exact produce 13 rfl (token .keywordGlobals (token .colon (token .lbracket
        (phrase (globalDeclList_derived isList) (token .rbracket nil))))) fun _ => rfl

theorem inferenceDefn_derived {defn : ASTInferenceDefn} (isDefn : Grammar.InferenceDefn tokens defn) :
    DerivedAs .inferenceDefn tokens defn := by
  obtain @⟨name, _, _, _, _, _, _, _, _, isGlobals, isArguments, isPremises, isProposition⟩ := isDefn
  refine produce 11 rfl (token .keywordInference (token (.identifier name) (token .lbrace
    (phrase (globalDeclSet_derived isGlobals) (phrase (argumentSet_derived isArguments)
      (phrase (premiseSet_derived isPremises) (phrase (propositionDefn_derived isProposition)
        (token .rbrace nil)))))))) fun driver => ?_
  rw [leaf_identifier]
  rfl

theorem inferenceDefnList_derived {defns : List ASTInferenceDefn}
    (isList : Grammar.InferenceDefnList tokens defns) : DerivedAs .inferenceDefnList tokens defns := by
  refine of_listOf (fun defns => ⟨.inferenceDefnList, defns⟩) (fun defn => ⟨.inferenceDefn, defn⟩)
    ?_ ?_ isList fun _ => inferenceDefn_derived
  · exact produce 9 rfl nil fun _ => rfl
  · exact fun before last => produce 10 rfl (phrase before last) fun _ => rfl

/-! ## Groups -/

theorem environmentDefn_derived {defn : ASTEnvironmentDefn}
    (isDefn : Grammar.EnvironmentDefn tokens defn) : DerivedAs .environmentDefn tokens defn := by
  obtain ⟨field, value⟩ := isDefn
  refine produce 8 rfl (token (.identifier field) (token .colon (token (.identifier value)
    (token .semicolon nil)))) fun driver => ?_
  rw [leaf_identifier, leaf_identifier]
  rfl

theorem environmentDefnList_derived {defns : List ASTEnvironmentDefn}
    (isList : Grammar.EnvironmentDefnList tokens defns) : DerivedAs .environmentDefnList tokens defns := by
  refine of_listOf (fun defns => ⟨.environmentDefnList, defns⟩) (fun defn => ⟨.environmentDefn, defn⟩)
    ?_ ?_ isList fun _ => environmentDefn_derived
  · exact produce 6 rfl nil fun _ => rfl
  · exact fun before last => produce 7 rfl (phrase before last) fun _ => rfl

theorem inferenceGroup_derived {group : ASTInferenceGroup} (isGroup : Grammar.InferenceGroup tokens group) :
    DerivedAs .inferenceGroup tokens group := by
  obtain @⟨name, _, _, _, _, isEnvironment, isInferences⟩ := isGroup
  refine produce 5 rfl (token .keywordGroup (token (.identifier name) (token .lbrace
    (phrase (environmentDefnList_derived isEnvironment) (phrase (inferenceDefnList_derived isInferences)
      (token .rbrace nil)))))) fun driver => ?_
  rw [leaf_identifier]
  rfl

theorem inferenceGroupList_derived {groups : List ASTInferenceGroup}
    (isList : Grammar.InferenceGroupList tokens groups) : DerivedAs .inferenceGroupList tokens groups := by
  refine of_listOf (fun groups => ⟨.inferenceGroupList, groups⟩) (fun group => ⟨.inferenceGroup, group⟩)
    ?_ ?_ isList fun _ => inferenceGroup_derived
  · exact produce 3 rfl nil fun _ => rfl
  · exact fun before last => produce 4 rfl (phrase before last) fun _ => rfl

/-! ## Both ways -/

theorem derived_of_meaning {name : Nonterminal} {value : (declaredType name).denote}
    (means : Meaning name tokens value) : DerivedAs name tokens value := by
  cases name with
  | accept | input => exact means.elim
  | inferenceGroupList => exact inferenceGroupList_derived means
  | inferenceGroup => exact inferenceGroup_derived means
  | environmentDefnList => exact environmentDefnList_derived means
  | environmentDefn => exact environmentDefn_derived means
  | inferenceDefnList => exact inferenceDefnList_derived means
  | inferenceDefn => exact inferenceDefn_derived means
  | globalDeclSet => exact globalDeclSet_derived means
  | globalDeclList => exact globalDeclList_derived means
  | globalDecl => exact globalDecl_derived means
  | argumentSet => exact argumentSet_derived means
  | argumentList => exact argumentList_derived means
  | inferenceArgument => exact inferenceArgument_derived means
  | premiseSet => exact premiseSet_derived means
  | premiseDefnList => exact premiseDefnList_derived means fun _ => premiseDefn_derived
  | premiseDefn => exact premiseDefn_derived means
  | premiseTypeInferenceDefn => exact premiseTypeInferenceDefn_derived means fun _ => premiseDefn_derived
  | whileClause => exact whileClause_derived means fun _ => premiseDefn_derived
  | premiseTypeEqualityDefn => exact premiseTypeEqualityDefn_derived means
  | rangeClause => exact rangeClause_derived means
  | propositionDefn => exact propositionDefn_derived means
  | identifiable => exact identifiable_derived means
  | identifier => exact identifier_derived means
  | deductionTargetList => exact deductionTargetList_derived means fun _ => deductionTarget_derived
  | deductionTarget => exact deductionTarget_derived means
  | deductionTargetSingular =>
      cases means
      exact singular_derived value
  | deductionTargetArray =>
      obtain ⟨name, size⟩ := value
      cases means with
      | array => exact array_derived name
      | arrayOfSize => exact arrayOfSize_derived name _
  | deductionTargetComputed =>
      obtain ⟨name, targets⟩ := value
      cases means with
      | computed => exact computed_derived name
      | computedOf isList =>
          exact computedOf_derived name (deductionTargetList_derived isList fun _ => deductionTarget_derived)
  | equalityOperator => exact equalityOperator_derived means

/-- The productions with their actions derive the language of each nonterminal,
with its values. -/
theorem derives_iff_meaning {name : Nonterminal} (inner : .nonterminal name ∉ outer)
    {tokens : List (Option Token)} {before after : ParserDriver} {values : List Value} :
    Derives rules semantics [.nonterminal name] tokens before values after ↔
      ∃ body value, Meaning name body value ∧ tokens = body.map some ∧
        values = [⟨declaredType name, value⟩] ∧ after = before := by
  constructor
  · intro derives
    have always : Always (fun tokens values => ∃ value, Meaning name tokens value ∧
        values = [⟨declaredType name, value⟩]) [.nonterminal name] :=
      fun tokens value means => ⟨value, means, rfl⟩
    obtain ⟨body, rfl, rfl, value, means, rfl⟩ :=
      always.of_derives derives fun _ member => List.mem_singleton.mp member ▸ inner
    exact ⟨body, value, means, rfl, rfl, rfl⟩
  · rintro ⟨body, value, means, rfl, rfl, rfl⟩
    exact derived_of_meaning means _

/-- The only production of `input`. -/
theorem rule_of_input : ∀ rule ∈ rules.all, rule ≠ rules.goal → rules.lhs rule = .input → rule = 2 := by
  decide

/-- The sentences are the inputs of the grammar with `END` behind them; the
driver gets the module. -/
theorem derives_goal_iff {tokens : List (Option Token)} {before after : ParserDriver}
    {values : List Value} :
    Derives rules semantics (rhs rules.goal) tokens before values after ↔
      ∃ body module, Grammar.Input body module ∧ tokens = body.map some ++ [none] ∧
        values = [⟨.module, ⟨[]⟩⟩, leaf none] ∧ after = before.setModule module := by
  constructor
  · intro derives
    obtain ⟨rule, member, notGoal, isInput, body, children, between, value, acted, rest, others, rfl, rfl,
      inBody, same, atEnd⟩ := Derives.of_nonterminal derives
    obtain ⟨token, behind, _, isEnd, rfl, rfl, nothing⟩ := Derives.of_terminal atEnd
    obtain rfl := rule_of_input rule member notGoal isInput
    obtain ⟨body, groups, isList, rfl, rfl, rfl⟩ := (derives_iff_meaning (by decide)).mp inBody
    cases nothing
    obtain ⟨rfl, rfl⟩ := Prod.mk.inj (Option.some.inj same)
    cases token with
    | none => exact ⟨body, ⟨groups⟩, .mk isList, rfl, rfl, rfl⟩
    | some token => cases token <;> cases isEnd
  · rintro ⟨body, _, ⟨isList⟩, rfl, rfl, rfl⟩
    have inBody := inferenceGroupList_derived isList before
    have atEnd : ∀ driver, Derives rules semantics [.terminal .endOfFile] [none] driver [leaf none] driver :=
      fun driver => .terminal none (.nil driver)
    have member : 2 ∈ rules.all := by decide
    have notGoal : 2 ≠ rules.goal := by decide
    exact .nonterminal member notGoal inBody rfl (atEnd _)

/-- The inputs of the grammar, with `END` behind them. -/
theorem sentence_iff {before : ParserDriver} {tokens : List (Option Token)} :
    Sentence rules semantics before tokens ↔
      ∃ body module, Grammar.Input body module ∧ tokens = body.map some ++ [none] := by
  constructor
  · rintro ⟨values, after, derives⟩
    obtain ⟨body, module, isInput, same, -, -⟩ := derives_goal_iff.mp derives
    exact ⟨body, module, isInput, same⟩
  · rintro ⟨body, module, isInput, same⟩
    exact ⟨_, _, derives_goal_iff.mpr ⟨body, module, isInput, same, rfl, rfl⟩⟩

end ParserTab

end Snowlake
