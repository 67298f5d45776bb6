import Mathlib.Data.List.GetD
import Snowlake.Lib.ShiftReduce.Validator
import Snowlake.Parse.ParserTab

/-! # The items of the parser

The productions of `parser.yy` by their numbers, the automaton that the tables
of `parser.tab.cc` are, and a certificate of it: the items of its states with
the sets `FIRST` and `FOLLOW`.
-/

namespace Snowlake

namespace ParserTab

/-- A symbol of the grammar. -/
abbrev GrammarSymbol := ShiftReduce.Symbol Terminal Nonterminal

private abbrev t : Terminal → GrammarSymbol := .terminal

private abbrev n : Nonterminal → GrammarSymbol := .nonterminal

/-- The productions from number 1 on, the first one is Bison's own. -/
def productions : List (Nonterminal × List GrammarSymbol) := [
  (.accept, [n .input, t .endOfFile]),
  (.input, [n .inferenceGroupList]),
  (.inferenceGroupList, []),
  (.inferenceGroupList, [n .inferenceGroupList, n .inferenceGroup]),
  (.inferenceGroup, [t .keywordGroup, t .identifier, t .lbrace, n .environmentDefnList, n
    .inferenceDefnList, t .rbrace]),
  (.environmentDefnList, []),
  (.environmentDefnList, [n .environmentDefnList, n .environmentDefn]),
  (.environmentDefn, [t .identifier, t .colon, t .identifier, t .semicolon]),
  (.inferenceDefnList, []),
  (.inferenceDefnList, [n .inferenceDefnList, n .inferenceDefn]),
  (.inferenceDefn, [t .keywordInference, t .identifier, t .lbrace, n .globalDeclSet, n .argumentSet, n
    .premiseSet, n .propositionDefn, t .rbrace]),
  (.globalDeclSet, []),
  (.globalDeclSet, [t .keywordGlobals, t .colon, t .lbracket, n .globalDeclList, t .rbracket]),
  (.globalDeclList, [n .globalDecl]),
  (.globalDeclList, [n .globalDeclList, t .comma, n .globalDecl]),
  (.globalDecl, [t .identifier]),
  (.argumentSet, [t .keywordArguments, t .colon, t .lbracket, t .rbracket]),
  (.argumentSet, [t .keywordArguments, t .colon, t .lbracket, n .argumentList, t .rbracket]),
  (.argumentList, [n .inferenceArgument]),
  (.argumentList, [n .argumentList, t .comma, n .inferenceArgument]),
  (.inferenceArgument, [t .identifier, t .colon, t .identifier]),
  (.premiseSet, [t .keywordPremises, t .colon, t .lbracket, n .premiseDefnList, t .rbracket]),
  (.premiseDefnList, []),
  (.premiseDefnList, [n .premiseDefnList, n .premiseDefn]),
  (.premiseDefn, [n .premiseTypeInferenceDefn]),
  (.premiseDefn, [n .premiseTypeEqualityDefn]),
  (.premiseTypeInferenceDefn, [n .identifiable, t .colon, n .deductionTarget, t .semicolon]),
  (.premiseTypeInferenceDefn, [n .identifiable, t .colon, n .deductionTarget, n .whileClause, t
    .semicolon]),
  (.whileClause, [t .keywordWhile, t .lbrace, n .premiseDefnList, t .rbrace]),
  (.premiseTypeEqualityDefn, [n .deductionTarget, n .equalityOperator, n .deductionTarget, t .semicolon]),
  (.premiseTypeEqualityDefn, [n .deductionTarget, n .equalityOperator, n .deductionTarget, n
    .rangeClause, t .semicolon]),
  (.rangeClause, [t .keywordInrange, t .integerLiteral, t .ellipsis, t .integerLiteral, t .ellipsis, n
    .deductionTarget]),
  (.propositionDefn, [t .keywordProposition, t .colon, n .deductionTarget, t .semicolon]),
  (.identifiable, [n .identifier]),
  (.identifiable, [n .identifiable, t .dot, n .identifier]),
  (.identifier, [t .identifier]),
  (.deductionTargetList, [n .deductionTarget]),
  (.deductionTargetList, [n .deductionTargetList, t .comma, n .deductionTarget]),
  (.deductionTarget, [n .deductionTargetSingular]),
  (.deductionTarget, [n .deductionTargetArray]),
  (.deductionTarget, [n .deductionTargetComputed]),
  (.deductionTargetSingular, [t .identifier]),
  (.deductionTargetArray, [t .identifier, t .lbracket, t .rbracket]),
  (.deductionTargetArray, [t .identifier, t .lbracket, t .integerLiteral, t .rbracket]),
  (.deductionTargetComputed, [t .identifier, t .lparen, t .rparen]),
  (.deductionTargetComputed, [t .identifier, t .lparen, n .deductionTargetList, t .rparen]),
  (.equalityOperator, [t .operatorEq]),
  (.equalityOperator, [t .operatorNeq]),
  (.equalityOperator, [t .operatorLt]),
  (.equalityOperator, [t .operatorLte])]

/-- `yyr1_` as a nonterminal. -/
def lhs : ℕ → Nonterminal
  | 0 => .accept
  | rule + 1 => (productions[rule]?.map Prod.fst).getD .accept

def rhs : ℕ → List GrammarSymbol
  | 0 => []
  | rule + 1 => (productions[rule]?.map Prod.snd).getD []

def rules : ShiftReduce.Rules ℕ Terminal Nonterminal where
  all := (List.range 51).tail
  lhs
  rhs
  goal := 1

def semantics : ShiftReduce.Semantics ℕ Terminal (Option Token) Value ParserDriver where
  kind
  leaf
  act

/-- The tables number the productions as they stand in the grammar. -/
example : (productions.map fun production => production.1.number) = yyr1_.tail ∧
      (productions.map fun production => production.2.length) = yyr2_.tail := by
  decide

/-! ## The automaton -/

/-- An entry of a table, within its bounds. -/
def entry (table : List ℤ) (index : ℤ) : ℤ := table.getD index.toNat 0

def defaultAction (state : ℕ) : ShiftReduce.Action ℕ ℕ :=
  match yydefact_.getD state 0 with
  | 0 => .error
  | rule => .reduce rule

def action (state : ℕ) (terminal : Terminal) : ShiftReduce.Action ℕ ℕ :=
  let yyn := yypact_.getD state 0
  if yyn = yypact_ninf_ then defaultAction state
  else
    let yyn := yyn + terminal.number
    if yyn < 0 ∨ yylast_ < yyn then defaultAction state
    else if entry yycheck_ yyn ≠ terminal.number then defaultAction state
    else
      let yyn := entry yytable_ yyn
      if yyn ≤ 0 then
        if yyn = yytable_ninf_ then .error else .reduce (-yyn).toNat
      else .shift yyn.toNat

def goto (state : ℕ) (name : Nonterminal) : ℕ :=
  let yyr := entry yypgoto_ (name.number - yyntokens_) + state
  if 0 ≤ yyr ∧ yyr ≤ yylast_ ∧ entry yycheck_ yyr = state then (entry yytable_ yyr).toNat
  else (entry yydefgoto_ (name.number - yyntokens_)).toNat

def automaton : ShiftReduce.Automaton ℕ ℕ Terminal Nonterminal where
  start := 0
  final := yyfinal_
  action
  goto

/-! ## The certificate -/

/-- The items of each state, as productions with the number of symbols behind. -/
def kernels : List (List (ℕ × ℕ)) := [
  [(1, 0)], [(1, 1)], [(2, 1), (4, 1)], [(1, 2)], [(5, 1)], [(4, 2)], [(5, 2)], [(5, 3)], [(5, 4), (7, 1)],
  [(8, 1)], [(7, 2)], [(5, 5), (10, 1)], [(8, 2)], [(11, 1)], [(5, 6)], [(10, 2)], [(8, 3)], [(11, 2)],
  [(8, 4)], [(11, 3)], [(13, 1)], [(11, 4)], [(13, 2)], [(17, 1), (18, 1)], [(11, 5)], [(13, 3)],
  [(17, 2), (18, 2)], [(22, 1)], [(11, 6)], [(16, 1)], [(13, 4), (15, 1)], [(14, 1)], [(17, 3), (18, 3)],
  [(22, 2)], [(33, 1)], [(11, 7)], [(15, 2)], [(13, 5)], [(21, 1)], [(17, 4)], [(18, 4), (20, 1)],
  [(19, 1)], [(22, 3)], [(33, 2)], [(11, 8)], [(15, 3)], [(21, 2)], [(20, 2)], [(18, 5)],
  [(22, 4), (24, 1)], [(42, 1), (43, 1), (44, 1), (45, 1), (46, 1)], [(33, 3)], [(39, 1)], [(40, 1)],
  [(41, 1)], [(21, 3)], [(20, 3)], [(36, 1), (42, 1), (43, 1), (44, 1), (45, 1), (46, 1)], [(22, 5)],
  [(24, 2)], [(25, 1)], [(26, 1)], [(27, 1), (28, 1), (35, 1)], [(34, 1)], [(30, 1), (31, 1)],
  [(43, 2), (44, 2)], [(45, 2), (46, 2)], [(33, 4)], [(35, 2)], [(27, 2), (28, 2)], [(47, 1)], [(48, 1)],
  [(49, 1)], [(50, 1)], [(30, 2), (31, 2)], [(44, 3)], [(43, 3)], [(45, 3)], [(38, 1), (46, 3)], [(37, 1)],
  [(36, 1)], [(35, 3)], [(27, 3), (28, 3)], [(30, 3), (31, 3)], [(44, 4)], [(38, 2)], [(46, 4)], [(29, 1)],
  [(27, 4)], [(28, 4)], [(32, 1)], [(30, 4)], [(31, 4)], [(38, 3)], [(29, 2)], [(28, 5)], [(32, 2)],
  [(31, 5)], [(24, 1), (29, 3)], [(32, 3)], [(29, 4)], [(32, 4)], [(32, 5)], [(32, 6)]]

def targets : List Nonterminal :=
  [.deductionTarget, .deductionTargetSingular, .deductionTargetArray, .deductionTargetComputed]

def premises : List Nonterminal :=
  [.premiseDefn, .premiseTypeInferenceDefn, .premiseTypeEqualityDefn, .identifiable, .identifier] ++
    targets

/-- The nonterminals that may come next in a state, each behind what asks for it. -/
def predictions : List (ℕ × List Nonterminal) := [
  (0, [.input, .inferenceGroupList]), (2, [.inferenceGroup]), (7, [.environmentDefnList]),
  (8, [.inferenceDefnList, .environmentDefn]), (11, [.inferenceDefn]), (19, [.globalDeclSet]),
  (21, [.argumentSet]), (24, [.premiseSet]), (25, [.globalDeclList, .globalDecl]),
  (28, [.propositionDefn]), (32, [.argumentList, .inferenceArgument]), (36, [.globalDecl]),
  (42, [.premiseDefnList]), (43, targets), (47, [.inferenceArgument]), (49, premises),
  (64, [.equalityOperator]), (66, .deductionTargetList :: targets), (68, [.identifier]), (69, targets),
  (74, targets), (82, [.whileClause]), (83, [.rangeClause]), (85, targets), (94, [.premiseDefnList]),
  (98, premises), (102, targets)]

/-- `NULLABLE`. -/
def nullable : Nonterminal → Bool
  | .input | .inferenceGroupList | .environmentDefnList | .inferenceDefnList | .globalDeclSet
  | .premiseDefnList => true
  | _ => false

/-- `FIRST`. -/
def first : Nonterminal → List Terminal
  | .accept => [.endOfFile, .keywordGroup]
  | .input | .inferenceGroupList | .inferenceGroup => [.keywordGroup]
  | .inferenceDefnList | .inferenceDefn => [.keywordInference]
  | .globalDeclSet => [.keywordGlobals]
  | .argumentSet => [.keywordArguments]
  | .premiseSet => [.keywordPremises]
  | .whileClause => [.keywordWhile]
  | .rangeClause => [.keywordInrange]
  | .propositionDefn => [.keywordProposition]
  | .equalityOperator => [.operatorEq, .operatorNeq, .operatorLt, .operatorLte]
  | _ => [.identifier]

/-- `FOLLOW`, but for the end of the input. -/
def follow : Nonterminal → List Terminal
  | .accept => []
  | .input => [.endOfFile]
  | .inferenceGroupList | .inferenceGroup => [.endOfFile, .keywordGroup]
  | .environmentDefnList | .environmentDefn => [.keywordInference, .identifier, .rbrace]
  | .inferenceDefnList | .inferenceDefn => [.keywordInference, .rbrace]
  | .globalDeclSet => [.keywordArguments]
  | .globalDeclList | .globalDecl | .argumentList | .inferenceArgument => [.comma, .rbracket]
  | .argumentSet => [.keywordPremises]
  | .premiseSet => [.keywordProposition]
  | .premiseDefnList | .premiseDefn | .premiseTypeInferenceDefn | .premiseTypeEqualityDefn =>
      [.identifier, .rbracket, .rbrace]
  | .whileClause | .rangeClause => [.semicolon]
  | .propositionDefn => [.rbrace]
  | .identifiable | .identifier => [.dot, .colon]
  | .deductionTargetList => [.comma, .rparen]
  | .deductionTarget | .deductionTargetSingular | .deductionTargetArray | .deductionTargetComputed =>
      [.keywordWhile, .keywordInrange, .comma, .semicolon, .rparen, .operatorEq, .operatorNeq,
        .operatorLt, .operatorLte]
  | .equalityOperator => [.identifier]

def certificate : ShiftReduce.Certificate ℕ ℕ Terminal Nonterminal where
  kernel state := kernels.getD state []
  predicted state := (predictions.lookup state).getD []
  nullable
  first
  follow
    | .accept => [none]
    | name => (follow name).map some
  last := .endOfFile

/-- How many reductions may follow in a state before the next token is shifted. -/
def reductions : List ℕ := [
  2, 0, 1, 0, 0, 2, 0, 2, 1, 0, 2, 0, 0, 0, 3, 1, 0, 0, 3, 1, 0, 0, 0, 0, 0, 0, 0, 0, 0, 2, 0, 1, 0, 0,
  0, 0, 0, 1, 0, 1, 0, 1, 1, 0, 2, 1, 0, 0, 1, 0, 3, 0, 2, 2, 2, 2, 1, 3, 1, 1, 2, 2, 0, 1, 0, 0, 0, 1,
  0, 0, 1, 1, 1, 1, 0, 0, 3, 3, 0, 1, 2, 1, 0, 0, 3, 0, 3, 0, 3, 0, 0, 3, 0, 1, 1, 3, 0, 3, 0, 0, 1, 0,
  0, 1]

def ranks : ShiftReduce.Ranks ℕ where
  rank state := reductions.getD state 0
  cost := 3

def states : List ℕ := List.range 104

def terminals : List Terminal := [
  .endOfFile, .keywordGroup, .keywordInference, .keywordEnvironment, .keywordArguments,
  .keywordGlobals, .keywordWhile, .keywordInrange, .keywordPremises, .keywordProposition,
  .integerLiteral, .identifier, .dot, .comma, .colon, .semicolon, .lbracket, .rbracket, .lbrace,
  .rbrace, .lparen, .rparen, .operatorEq, .operatorNeq, .operatorLt, .operatorLte, .ellipsis]

theorem mem_terminals (terminal : Terminal) : terminal ∈ terminals := by
  cases terminal <;> decide

theorem mem_states {state : ℕ}
    (alive : certificate.kernel state ≠ [] ∨ certificate.predicted state ≠ []) : state ∈ states := by
  rw [states, List.mem_range]
  by_contra outside
  have predicted : ∀ row ∈ predictions, row.1 < 104 := by decide
  have none : predictions.lookup state = none := by
    refine List.lookup_eq_none_iff.mpr fun row member => ?_
    have inside := predicted row member
    rw [bne_iff_ne]
    omega
  rcases alive with kernel | other
  · exact kernel (List.getD_eq_default _ _ (Nat.not_lt.mp outside))
  · exact other (congrArg (·.getD []) none)

/-- The items are those of the tables. -/
theorem checked : certificate.Checked rules automaton ranks states terminals where
  passed := by decide +kernel
  states_cover _ := mem_states
  kinds_cover := mem_terminals

end ParserTab

end Snowlake
