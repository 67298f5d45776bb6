import Snowlake.Parse.ParserRuns

/-! # What the parser returns

The tables read what the recursive parser reads: `parse` returns 0 for the inputs
of the grammar, and for the others 1, with an error at the first token that no
input goes on with.
-/

namespace Snowlake

open Parsing ShiftReduce

namespace ParserTab

/-! ## Words -/

/-- A production for each nonterminal that does not lead back to it. -/
def choice : Nonterminal → ℕ
  | .accept => 1
  | .input => 2
  | .inferenceGroupList => 3
  | .inferenceGroup => 5
  | .environmentDefnList => 6
  | .environmentDefn => 8
  | .inferenceDefnList => 9
  | .inferenceDefn => 11
  | .globalDeclSet => 12
  | .globalDeclList => 14
  | .globalDecl => 16
  | .argumentSet => 17
  | .argumentList => 19
  | .inferenceArgument => 21
  | .premiseSet => 22
  | .premiseDefnList => 23
  | .premiseDefn => 25
  | .premiseTypeInferenceDefn => 27
  | .whileClause => 29
  | .premiseTypeEqualityDefn => 30
  | .rangeClause => 32
  | .propositionDefn => 33
  | .identifiable => 34
  | .identifier => 36
  | .deductionTargetList => 37
  | .deductionTarget => 39
  | .deductionTargetSingular => 42
  | .deductionTargetArray => 43
  | .deductionTargetComputed => 45
  | .equalityOperator => 47

/-- A token of each kind. -/
def sample : Terminal → Option Token
  | .endOfFile => none
  | .keywordGroup => some .keywordGroup
  | .keywordInference => some .keywordInference
  | .keywordEnvironment => some .keywordEnvironment
  | .keywordArguments => some .keywordArguments
  | .keywordGlobals => some .keywordGlobals
  | .keywordWhile => some .keywordWhile
  | .keywordInrange => some .keywordInrange
  | .keywordPremises => some .keywordPremises
  | .keywordProposition => some .keywordProposition
  | .integerLiteral => some (.integerLiteral 0)
  | .identifier => some (.identifier "")
  | .dot => some .dot
  | .comma => some .comma
  | .colon => some .colon
  | .semicolon => some .semicolon
  | .lbracket => some .lbracket
  | .rbracket => some .rbracket
  | .lbrace => some .lbrace
  | .rbrace => some .rbrace
  | .lparen => some .lparen
  | .rparen => some .rparen
  | .operatorEq => some .operatorEq
  | .operatorNeq => some .operatorNeq
  | .operatorLt => some .operatorLt
  | .operatorLte => some .operatorLte
  | .ellipsis => some .ellipsis

theorem kind_sample (terminal : Terminal) : kind (sample terminal) = terminal := by
  cases terminal <;> rfl

theorem productive : Productive rules semantics := by
  intro rule member
  have words : ∀ rule ∈ rules.all, (word rules choice sample 20 (rhs rule)).isSome = true := by
    decide +kernel
  obtain ⟨tokens, made⟩ := Option.isSome_iff_exists.mp (words rule member)
  exact ⟨tokens, yields_word actions_succeed kind_sample made⟩

/-! ## The stack in front of an error -/

/-- Where the symbols of the first production stand. -/
theorem next_outer {rule before : ℕ} {symbol : GrammarSymbol} (member : rule ∈ rules.all)
    (isNext : Certificate.next rules rule before = some symbol) (isOuter : symbol ∈ outer) :
    rule = 1 ∧ (before = 0 ∧ symbol = .nonterminal .input ∨ before = 1 ∧ symbol = .terminal .endOfFile) := by
  have places : ∀ rule ∈ rules.all, ∀ before ∈ List.range (rhs rule).length, ∀ symbol ∈ outer,
      (rhs rule)[before]? = some symbol → rule = 1 ∧
        (before = 0 ∧ symbol = .nonterminal .input ∨ before = 1 ∧ symbol = .terminal .endOfFile) := by
    decide
  obtain ⟨inside, -⟩ := List.getElem?_eq_some_iff.mp isNext
  exact places rule member before (List.mem_range.mpr inside) symbol isOuter isNext

/-- The states behind `input` and behind `END`. -/
theorem kernel_input {state : ℕ} (inKernel : (1, 1) ∈ certificate.kernel state) : state = 1 := by
  have only : ∀ state ∈ states, (1, 1) ∈ certificate.kernel state → state = 1 := by decide +kernel
  exact only state (mem_states (.inl (List.ne_nil_of_mem inKernel))) inKernel

theorem kernel_end {state : ℕ} (inKernel : (1, 2) ∈ certificate.kernel state) : state = automaton.final := by
  have only : ∀ state ∈ states, (1, 2) ∈ certificate.kernel state → state = automaton.final := by
    decide +kernel
  exact only state (mem_states (.inl (List.ne_nil_of_mem inKernel))) inKernel

theorem item_input {rule behind : ℕ} (item : certificate.Item rules 1 rule behind) : rule = 1 ∧ behind = 1 := by
  rcases item.2 with inKernel | ⟨-, predicted⟩
  · exact Prod.mk.inj (List.mem_singleton.mp inKernel)
  · cases predicted

theorem item_end {rule behind : ℕ} (item : certificate.Item rules automaton.final rule behind) :
    rule = 1 ∧ behind = 2 := by
  rcases item.2 with inKernel | ⟨-, predicted⟩
  · exact Prod.mk.inj (List.mem_singleton.mp inKernel)
  · cases predicted

variable {stack : List (ℕ × Value)} {names : List GrammarSymbol}

/-- State 1 is entered with `input`, on the empty stack. -/
theorem stacked_input (stacked : certificate.Stacked rules automaton stack names)
    (isTop : automaton.top stack = 1) : names = [.nonterminal .input] := by
  cases stacked with
  | nil => cases isTop
  | @push stack symbols symbol target value below entered =>
      obtain rfl : target = 1 := isTop
      obtain ⟨before, same, isNext, item⟩ := entered.2 1 1 (by decide)
      obtain rfl : before = 0 := by omega
      obtain rfl : .nonterminal .input = symbol := Option.some.inj isNext
      have start : certificate.Item rules (automaton.top stack) 1 0 := item
      rcases start.2 with inKernel | ⟨-, predicted⟩
      · obtain ⟨-, rfl⟩ := below.kernel_zero checked.sound inKernel
        cases below
        rfl
      · exact absurd predicted checked.sound.goal_unpredicted

/-- Elsewhere no symbol of the first production is on the stack. -/
theorem stacked_inner (stacked : certificate.Stacked rules automaton stack names)
    (notInput : automaton.top stack ≠ 1) (notFinal : automaton.top stack ≠ automaton.final) :
    ∀ symbol ∈ names, symbol ∉ outer := by
  induction stacked with
  | nil => nofun
  | @push stack symbols symbol target value below entered ih =>
      obtain ⟨⟨rule, behind⟩, inKernel⟩ := List.exists_mem_of_ne_nil _ entered.1
      obtain ⟨before, rfl, isNext, item⟩ := entered.2 rule behind inKernel
      have notOuter : symbol ∉ outer := by
        intro isOuter
        obtain ⟨rfl, ⟨rfl, -⟩ | ⟨rfl, -⟩⟩ := next_outer item.1 isNext isOuter
        · exact notInput (kernel_input inKernel)
        · exact notFinal (kernel_end inKernel)
      have belowInner := ih
        (fun isInput => by
          obtain ⟨rfl, rfl⟩ := item_input (isInput ▸ item)
          exact notFinal (kernel_end inKernel))
        (fun isFinal => by
          obtain ⟨rfl, rfl⟩ := item_end (isFinal ▸ item)
          cases isNext)
      intro other member
      rcases List.mem_cons.mp member with rfl | inBelow
      · exact notOuter
      · exact belowInner other inBelow

/-! ## Behind a list of groups -/

theorem of_map_some {body listed : List Token} {token : Token} {later : List (Option Token)}
    (same : listed.map some ++ some token :: later = body.map some ++ [none]) :
    body = listed ++ token :: later.filterMap id := by
  simpa using (congrArg (List.filterMap id) same).symm

/-- Behind complete groups an input ends, or goes on with a group. -/
theorem sentence_behind_groups {before : ParserDriver} {listed : List Token}
    {groups : List ASTInferenceGroup} (isList : Grammar.InferenceGroupList listed groups)
    {token : Option Token} {later : List (Option Token)}
    (sentence : Sentence rules semantics before (listed.map some ++ token :: later)) :
    token = none ∨ token = some .keywordGroup := by
  cases token with
  | none => exact .inl rfl
  | some token =>
      obtain ⟨body, module, isInput, same⟩ := sentence_iff.mp sentence
      obtain rfl := of_map_some same
      by_contra stray
      have notGroup : token ≠ .keywordGroup := by
        rintro rfl
        exact stray (.inr rfl)
      have rejected : Parser.parse (listed ++ token :: later.filterMap id) before = _ :=
        Parser.parse_of_stray isList notGroup before
      rw [Parser.parse_of_input isInput before] at rejected
      cases rejected

theorem groups_sentence {listed : List Token} {groups : List ASTInferenceGroup}
    (isList : Grammar.InferenceGroupList listed groups) (before : ParserDriver) :
    Sentence rules semantics before (listed.map some ++ [none]) :=
  sentence_iff.mpr ⟨listed, ⟨groups⟩, .mk isList, rfl⟩

/-- One more group may follow. -/
theorem group_follows {listed : List Token} {groups : List ASTInferenceGroup}
    (isList : Grammar.InferenceGroupList listed groups) (before : ParserDriver) :
    ∃ later, Sentence rules semantics before (listed.map some ++ some .keywordGroup :: later) := by
  have more := isList.snoc (.mk .nil .nil : Grammar.InferenceGroup
    [.keywordGroup, .identifier "", .lbrace, .rbrace] ⟨"", [], []⟩)
  exact ⟨[some (.identifier ""), some .lbrace, some .rbrace, none],
    by simpa using groups_sentence more before⟩

/-- In front of an error another token than these two can be shifted. -/
theorem shifts_other {state : ℕ} (below : state < 104) (isError : defaultAction state = .error)
    (notInput : state ≠ 1) :
    ∃ kind, kind ≠ .endOfFile ∧ kind ≠ .keywordGroup ∧ ∃ target, action state kind = .shift target := by
  have shifts : ∀ state < 104, yydefact_.getD state 0 = 0 → state ≠ 1 →
      ∃ kind ∈ terminals, kind ≠ .endOfFile ∧ kind ≠ .keywordGroup ∧
        (action state kind).target?.isSome = true := by
    decide +kernel
  obtain ⟨kind, -, notEnd, notGroup, isShift⟩ :=
    shifts state below (defaultAction_eq_error.mp isError) notInput
  exact ⟨kind, notEnd, notGroup, ShiftReduce.Action.target?_isSome_iff.mp isShift⟩

/-! ## Rejected inputs -/

theorem always_true (names : List GrammarSymbol) : Always (fun _ _ => True) names := by
  induction names with
  | nil => trivial
  | cons symbol names ih =>
      cases symbol with
      | terminal => exact fun _ _ => ih
      | nonterminal =>
          cases names with
          | nil => exact fun _ _ _ => trivial
          | cons => exact fun _ _ _ => ih

/-- A list of groups in front of a token that no input goes on with was read. -/
theorem read_eq_groups {driver : ParserDriver} {read rest : List (Option Token)} {token : Option Token}
    {listed later : List Token} {next : Token} {groups : List ASTInferenceGroup}
    (split : read ++ token :: rest = (listed ++ next :: later).map some ++ [none])
    (viable : ∃ later, Sentence rules semantics driver (read ++ later))
    (bad : ∀ later, ¬ Sentence rules semantics driver (read ++ token :: later))
    (isList : Grammar.InferenceGroupList listed groups) (notGroup : next ≠ .keywordGroup) :
    read = listed.map some := by
  rw [List.map_append, List.append_assoc] at split
  rcases List.append_eq_append_iff.mp split with ⟨between, isListed, isRest⟩ | ⟨between, rfl, isNext⟩
  · cases between with
    | nil => rw [isListed, List.append_nil]
    | cons head between =>
        obtain ⟨rfl, -⟩ := List.cons.inj isRest
        have sentence := groups_sentence isList driver
        rw [isListed, List.append_assoc] at sentence
        exact absurd sentence (bad _)
  · cases between with
    | nil => rw [List.append_nil]
    | cons head between =>
        obtain ⟨rfl, -⟩ := List.cons.inj isNext
        obtain ⟨later, sentence⟩ := viable
        rw [List.append_assoc] at sentence
        rcases sentence_behind_groups isList sentence with impossible | isGroup
        · cases impossible
        · exact absurd (Option.some.inj isGroup) notGroup

/-- The recursive parser fails with the same module. -/
theorem parse_of_rejected {body : List Token} {driver : ParserDriver}
    {config : Config ℕ (Option Token) Value ParserDriver}
    (settles : automaton.Settles rules semantics ⟨[], body.map some ++ [none], driver⟩ (.rejected config)) :
    Parser.parse body driver = (1, config.state) := by
  have sound := checked.sound
  obtain ⟨read, token, rest, split, isInput, viable, bad⟩ :=
    sound.first_bad checked.complete actions_succeed productive settles
  obtain ⟨_, reached, stepped, -⟩ := settles
  obtain ⟨rfl, notFinal, _, _, isInputToo, action⟩ := Automaton.step_eq_rejected stepped
  obtain ⟨rfl, rfl⟩ := List.cons.inj (isInput.symm.trans isInputToo)
  obtain ⟨front, parsed, same⟩ := (Certificate.Parsed.initial driver _).reaches sound reached
  rw [isInput, List.nil_append, split] at same
  obtain rfl : front = read := List.append_cancel_right same
  obtain ⟨names, stacked, derives⟩ := id parsed
  by_cases isTop : automaton.top config.stack = 1
  · -- the module is set, and the groups are read
    obtain rfl := stacked_input stacked isTop
    obtain ⟨rule, member, notGoal, isRule, inBody, _, _, _, acted, _, _, rfl, _, inList, isAct, nothing⟩ :=
      Derives.of_nonterminal derives
    cases nothing
    obtain rfl := rule_of_input rule member notGoal isRule
    obtain ⟨listed, groups, isList, rfl, rfl, unchanged⟩ := (derives_iff_meaning (by decide)).mp inList
    rw [unchanged] at isAct
    obtain ⟨-, isState⟩ := Prod.mk.inj (Option.some.inj isAct)
    rw [← isState]
    rw [List.append_nil] at split bad
    cases token with
    | none =>
        rw [isTop] at action
        cases action
    | some token =>
        obtain rfl := of_map_some split.symm
        refine Parser.parse_of_stray isList ?_ driver
        rintro rfl
        obtain ⟨later, sentence⟩ := group_follows isList driver
        exact bad later sentence
  · -- the driver is as before, and no list of groups is read
    obtain ⟨-, -, unchanged, -⟩ :=
      (always_true names.reverse).of_derives derives fun symbol member =>
        stacked_inner stacked isTop notFinal symbol (List.mem_reverse.mp member)
    rw [unchanged, Parser.parse]
    cases isRead : Parser.inferenceGroupList body.length body with
    | none => rfl
    | some answer =>
        obtain ⟨groups, left⟩ := answer
        obtain ⟨listed, rfl, isList⟩ := (Parser.inferenceGroupList_reads _).sound isRead
        exfalso
        cases left with
        | nil =>
            have sentence := groups_sentence isList driver
            rw [← List.append_nil listed, split] at sentence
            exact bad rest sentence
        | cons next left =>
            have notGroup : next ≠ .keywordGroup := by
              simpa [NotBefore] using Parser.inferenceGroupList_stops isRead (Nat.le_refl _)
            obtain rfl := read_eq_groups split.symm viable bad isList notGroup
            have below : automaton.top config.stack < 104 :=
              List.mem_range.mp (mem_states (.inl (stacked.kernel_ne_nil sound)))
            obtain ⟨other, notEnd, isNotGroup, target, isShift⟩ :=
              shifts_other below (default_of_error action) isTop
            rw [← kind_sample other] at isShift
            obtain ⟨later, sentence⟩ := parsed.shiftable sound actions_succeed productive isShift
            rcases sentence_behind_groups isList sentence with isEnd | isGroup
            · exact notEnd ((kind_sample other).symm.trans (congrArg kind isEnd))
            · exact isNotGroup ((kind_sample other).symm.trans (congrArg kind isGroup))

/-! ## The results -/

/-- The tokens begin an input of the grammar with `END` behind it. -/
def Begins (tokens : List (Option Token)) : Prop :=
  ∃ body module later, Grammar.Input body module ∧ body.map some ++ [none] = tokens ++ later

theorem begins_iff {tokens : List (Option Token)} (before : ParserDriver) :
    Begins tokens ↔ ∃ later, Sentence rules semantics before (tokens ++ later) := by
  constructor
  · rintro ⟨body, module, later, isInput, same⟩
    exact ⟨later, sentence_iff.mpr ⟨body, module, isInput, same.symm⟩⟩
  · rintro ⟨later, sentence⟩
    obtain ⟨body, module, isInput, same⟩ := sentence_iff.mp sentence
    exact ⟨body, module, later, isInput, same.symm⟩

/-- Rounds that are enough for so many tokens. -/
def rounds (front : List (Token × Location)) (extra : ℕ) : ℕ := 4 * front.length + 7 + extra

variable (front : List (Token × Location)) (last : Location) (driver : ParserDriver) (extra : ℕ)

/-- The parser comes to an end like the automaton. -/
theorem loop_decides :
    ∃ config final, (automaton.Settles rules semantics ⟨[], (symbols front last).map Prod.fst, driver⟩
        (.accepted config) ∧ config.input = [] ∧
        loop (rounds front extra) (Parse.init (symbols front last) driver) = some (.yyreturn 0 final) ∧
        Runs (symbols front last) final config) ∨
      automaton.Settles rules semantics ⟨[], (symbols front last).map Prod.fst, driver⟩
        (.rejected config) ∧
        loop (rounds front extra) (Parse.init (symbols front last) driver) = some (.yyreturn 1 final) ∧
        Fails (symbols front last) final config := by
  have closed := symbols_closed front last
  have enough : ranks.rank automaton.start + (ranks.cost + 1) * ((symbols front last).map Prod.fst).length <
      rounds front extra := by
    have isRank : ranks.rank automaton.start = 2 := rfl
    have isCost : ranks.cost = 3 := rfl
    simp only [isRank, isCost, rounds, symbols, List.length_map, List.length_append, List.length_singleton]
    omega
  obtain ⟨config, settles, decided⟩ :=
    checked.descends.decides checked.sound actions_succeed closed driver enough
  have answers := loop_answers closed (rounds front extra) (Runs.init (symbols front last) driver) .refl
  rcases decided with ⟨accepted, atEnd⟩ | rejected
  · rw [accepted] at settles answers
    generalize loop (rounds front extra) (Parse.init (symbols front last) driver) = round at answers
    cases answers with
    | accepted runs => exact ⟨config, _, .inl ⟨settles, atEnd, rfl, runs⟩⟩
  · rw [rejected] at settles answers
    generalize loop (rounds front extra) (Parse.init (symbols front last) driver) = round at answers
    cases answers with
    | rejected fails => exact ⟨config, _, .inr ⟨settles, rfl, fails⟩⟩

variable {front last driver}

theorem accepted_input {config : Config ℕ (Option Token) Value ParserDriver}
    (settles : automaton.Settles rules semantics ⟨[], (symbols front last).map Prod.fst, driver⟩
      (.accepted config)) (atEnd : config.input = []) :
    ∃ module, Grammar.Input (front.map Prod.fst) module ∧ config.state = driver.setModule module := by
  obtain ⟨read, split, derives⟩ := checked.sound.sentence settles
  obtain ⟨body, module, isInput, rfl, -, isState⟩ := derives_goal_iff.mp derives
  rw [atEnd, List.append_nil, symbols_fst] at split
  have same := List.append_cancel_right split
  rw [List.map_inj_right fun _ _ => Option.some.inj] at same
  exact ⟨module, same ▸ isInput, isState⟩

theorem rejected_not_input {config : Config ℕ (Option Token) Value ParserDriver}
    (settles : automaton.Settles rules semantics ⟨[], (symbols front last).map Prod.fst, driver⟩
      (.rejected config)) : ¬ ∃ module, Grammar.Input (front.map Prod.fst) module := by
  rintro ⟨module, isInput⟩
  rw [symbols_fst] at settles
  have rejected := parse_of_rejected settles
  rw [Parser.parse_of_input isInput] at rejected
  cases rejected

variable (front last driver)

/-- The loop returns what the recursive parser does, and has reported one error
if it failed. -/
theorem loop_returns :
    ∃ final, loop (rounds front extra) (Parse.init (symbols front last) driver) =
        some (.yyreturn (Parser.parse (front.map Prod.fst) driver).1 final) ∧
      final.driver = (Parser.parse (front.map Prod.fst) driver).2 ∧
      ((Parser.parse (front.map Prod.fst) driver).1 = 0 ∧ final.errors = [] ∨
        (Parser.parse (front.map Prod.fst) driver).1 = 1 ∧
          ∃ location message, final.errors = [(location, message)]) := by
  obtain ⟨config, final, ⟨settles, atEnd, ran, runs⟩ | ⟨settles, ran, fails⟩⟩ :=
    loop_decides front last driver extra
  · obtain ⟨module, isInput, isState⟩ := accepted_input settles atEnd
    rw [Parser.parse_of_input isInput]
    exact ⟨final, ran, runs.driver.trans isState, .inl ⟨rfl, runs.quiet.2.2⟩⟩
  · obtain ⟨_, _, location, _, _, isErrors⟩ := fails.reported
    rw [symbols_fst] at settles
    rw [parse_of_rejected settles]
    exact ⟨final, ran, fails.driver, .inr ⟨rfl, location, _, isErrors⟩⟩

/-- The tables parse what the recursive parser does: they return the same code
and leave the same module, and no table is read outside, no value is taken as
another type, and the lexer is not called behind `END`. -/
theorem loop_eq_parse :
    ∃ final, loop (rounds front extra) (Parse.init (symbols front last) driver) =
        some (.yyreturn (Parser.parse (front.map Prod.fst) driver).1 final) ∧
      final.driver = (Parser.parse (front.map Prod.fst) driver).2 := by
  obtain ⟨final, ran, same, -⟩ := loop_returns front last driver extra
  exact ⟨final, ran, same⟩

/-- The inputs of the grammar are accepted with their module, all that the lexer
returns is read and no error is reported.  Everything else is rejected at the
first token that no input goes on with: the lexer is not called for more, and the
one error that is reported is at that token. -/
theorem loop_result :
    ∃ final,
      (∃ module, Grammar.Input (front.map Prod.fst) module ∧
        loop (rounds front extra) (Parse.init (symbols front last) driver) = some (.yyreturn 0 final) ∧
        final.driver = driver.setModule module ∧ final.errors = [] ∧ final.input = []) ∨
      (¬ ∃ module, Grammar.Input (front.map Prod.fst) module) ∧
        loop (rounds front extra) (Parse.init (symbols front last) driver) = some (.yyreturn 1 final) ∧
        ∃ read token location message, symbols front last = read ++ (token, location) :: final.input ∧
          final.errors = [(location, message)] ∧ Begins (read.map Prod.fst) ∧
          ¬ Begins (read.map Prod.fst ++ [token]) := by
  obtain ⟨config, final, ⟨settles, atEnd, ran, runs⟩ | ⟨settles, ran, fails⟩⟩ :=
    loop_decides front last driver extra
  · obtain ⟨module, isInput, isState⟩ := accepted_input settles atEnd
    have nothing := runs.lookahead
    rw [atEnd, List.append_eq_nil_iff, List.map_eq_nil_iff] at nothing
    exact ⟨final, .inl ⟨module, isInput, ran, runs.driver.trans isState, runs.quiet.2.2, nothing.2⟩⟩
  · obtain ⟨read, token, location, split, isInput, isErrors⟩ := fails.reported
    obtain ⟨front', token', rest, splitToo, isInputToo, viable, bad⟩ :=
      checked.sound.first_bad checked.complete actions_succeed productive settles
    obtain ⟨rfl, rfl⟩ := List.cons.inj (isInput.symm.trans isInputToo)
    rw [split, List.map_append, List.map_cons] at splitToo
    obtain rfl := List.append_cancel_right splitToo
    refine ⟨final, .inr ⟨rejected_not_input settles, ran, read, token, location, _, split, isErrors,
      (begins_iff driver).mpr viable, ?_⟩⟩
    rw [begins_iff driver]
    rintro ⟨later, sentence⟩
    rw [List.append_assoc] at sentence
    exact bad later sentence

/-- What a state in front of an error has an action for can be shifted. -/
theorem shift_of_expected {state : ℕ} (below : state < 104) (isError : defaultAction state = .error)
    {kind : Terminal} (isExpected : kind ∈ expected state) :
    ∃ target, automaton.action state kind = .shift target := by
  have shifts : ∀ state < 104, yydefact_.getD state 0 = 0 → ∀ kind ∈ expected state,
      (action state kind).target?.isSome = true := by
    decide +kernel
  exact ShiftReduce.Action.target?_isSome_iff.mp
    (shifts state below (defaultAction_eq_error.mp isError) kind isExpected)

/-- The message of a rejected input names the token that it is rejected at and up
to four kinds of tokens that are expected, each of which an input goes on with. -/
theorem loop_message :
    (∃ module, Grammar.Input (front.map Prod.fst) module) ∨
      ∃ final read token location kinds,
        loop (rounds front extra) (Parse.init (symbols front last) driver) = some (.yyreturn 1 final) ∧
        symbols front last = read ++ (token, location) :: final.input ∧
        final.errors = [(location, message (kind token) kinds)] ∧ kinds.length ≤ 4 ∧
        ∀ other, kind other ∈ kinds → Begins (read.map Prod.fst ++ [other]) := by
  obtain ⟨config, final, ⟨settles, atEnd, ran, runs⟩ | ⟨settles, ran, fails⟩⟩ :=
    loop_decides front last driver extra
  · obtain ⟨module, isInput, -⟩ := accepted_input settles atEnd
    exact .inl ⟨module, isInput⟩
  · have sound := checked.sound
    obtain ⟨_, reached, stepped, -⟩ := settles
    obtain ⟨rfl, notFinal, token', rest, isInputToo, action⟩ := Automaton.step_eq_rejected stepped
    obtain ⟨read, token, location, split, isInput, isErrors⟩ := fails.reported
    obtain ⟨front', parsed, same⟩ := (Certificate.Parsed.initial driver _).reaches sound reached
    obtain ⟨names, stacked, -⟩ := id parsed
    have below : automaton.top config.stack < 104 :=
      List.mem_range.mp (mem_states (.inl (stacked.kernel_ne_nil sound)))
    refine .inr ⟨final, read, token, location, _, ran, split, isErrors, ?_, ?_⟩
    · rw [reported]
      split
      · rename_i few
        exact Nat.le_of_lt_succ few
      · exact Nat.zero_le _
    · intro other member
      have isExpected : kind other ∈ expected (automaton.top config.stack) := by
        rw [reported] at member
        split at member
        · exact member
        · cases member
      obtain ⟨target, isShift⟩ := shift_of_expected below (default_of_error action) isExpected
      obtain ⟨later, sentence⟩ := parsed.shiftable sound actions_succeed productive isShift
      rw [isInput, split, List.map_append, List.map_cons, List.nil_append] at same
      obtain rfl := List.append_cancel_right same
      exact (begins_iff driver).mpr ⟨later, by simpa using sentence⟩

end ParserTab

end Snowlake
