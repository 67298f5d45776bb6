import Snowlake.Parse.Productions

/-! # The rounds of the parser

`parse` takes the steps of the automaton.  It reads no table outside, calls the
lexer for the tokens that the automaton consumes or stops at, and reports one
error if it does not accept.
-/

namespace Snowlake

open ShiftReduce

namespace ParserTab

/-- A token, or `END`, with where it stands. -/
abbrev Located := Option Token × Location

/-! ## The tables -/

theorem read_eq {table : List ℤ} {index : ℤ} (nonneg : 0 ≤ index) (below : index < table.length) :
    read table index = some (entry table index) := by
  have inside : index.toNat < table.length := by omega
  rw [read, if_pos nonneg, entry, List.getD_eq_getElem _ _ inside, List.getElem?_eq_getElem inside]

theorem getElem?_getD {α : Type} {table : List α} {index : ℕ} (below : index < table.length) (other : α) :
    table[index]? = some (table.getD index other) := by
  rw [List.getD_eq_getElem _ _ below, List.getElem?_eq_getElem below]

theorem lengths : yypact_.length = 104 ∧ yydefact_.length = 104 ∧ yycheck_.length = 109 ∧
    yytable_.length = 109 ∧ yytname_.length = 59 := by
  decide

/-- No entry of `yytable_` is an error. -/
theorem yytable_not_error {index : ℤ} (nonneg : 0 ≤ index) (below : index ≤ yylast_) :
    entry yytable_ index ≠ yytable_ninf_ := by
  have proper : ∀ value ∈ yytable_, value ≠ yytable_ninf_ := by decide
  have inside : index.toNat < yytable_.length := by
    rw [lengths.2.2.2.1]
    rw [yylast_] at below
    omega
  rw [entry, List.getD_eq_getElem _ _ inside]
  exact proper _ (List.getElem_mem inside)

/-- Errors are default actions of states that look at the lookahead. -/
theorem default_of_error {state : ℕ} {kind : Terminal} (isError : action state kind = .error) :
    defaultAction state = .error := by
  rw [action] at isError
  split at isError
  · exact isError
  · dsimp only at isError
    split at isError
    · exact isError
    · rename_i inRange
      split at isError
      · exact isError
      · split at isError
        · split at isError
          · rename_i isNinf
            exact absurd isNinf (yytable_not_error (by omega) (by omega))
          · cases isError
        · cases isError

theorem defaultAction_eq_error {state : ℕ} : defaultAction state = .error ↔ yydefact_.getD state 0 = 0 := by
  rw [defaultAction]
  split
  · rename_i isZero
    exact ⟨fun _ => isZero, fun _ => rfl⟩
  · rename_i notZero
    exact ⟨nofun, fun isZero => absurd isZero notZero⟩

/-- A state that does without the lookahead has a default reduction. -/
theorem consistent {state : ℕ} (below : state < 104) (isDefault : yypact_.getD state 0 = yypact_ninf_) :
    defaultAction state ≠ .error := by
  have reduces : ∀ state < 104, yypact_.getD state 0 = yypact_ninf_ → yydefact_.getD state 0 ≠ 0 := by
    decide +kernel
  rw [ne_eq, defaultAction_eq_error]
  exact reduces state below isDefault

/-! ## One round -/

/-- What a round does with the action of its state. -/
def perform (state : ℕ) (token : Option Token) (parse : Parse) : ShiftReduce.Action ℕ ℕ → Option Round
  | .shift target => return .yynewstate { parse with
      yystack := (target, leaf token) :: parse.yystack, yyla := none,
      yyerrstatus := parse.yyerrstatus - 1 }
  | .reduce rule => yyreduce rule parse
  | .error => yyerrlab state parse

theorem yydefault_eq {state : ℕ} (below : state < 104) (token : Option Token) (parse : Parse) :
    yydefault state parse = perform state token parse (defaultAction state) := by
  have inside : state < yydefact_.length := by
    rw [lengths.2.1]
    exact below
  rw [yydefault, getElem?_getD inside 0, defaultAction]
  cases yydefact_.getD state 0 <;> rfl

theorem yyaction_eq {state : ℕ} (below : state < 104) (token : Option Token) (parse : Parse)
    (notDefault : yypact_.getD state 0 ≠ yypact_ninf_) :
    yyaction state (yypact_.getD state 0) token parse =
      perform state token parse (action state (kind token)) := by
  rw [yyaction, action, if_neg notDefault]
  dsimp only
  generalize yypact_.getD state 0 + ((kind token).number : ℤ) = yyn
  split
  · exact yydefault_eq below token parse
  · rename_i inRange
    have nonneg : 0 ≤ yyn := by omega
    have within : yyn < 109 := by
      rw [yylast_] at inRange
      omega
    rw [read_eq nonneg (by rw [lengths.2.2.1]; exact within),
      read_eq nonneg (by rw [lengths.2.2.2.1]; exact within)]
    simp only [Option.bind_eq_bind, Option.bind_some]
    split
    · exact yydefault_eq below token parse
    · split
      · rw [if_neg (yytable_not_error nonneg (by omega)), if_neg (yytable_not_error nonneg (by omega))]
        rfl
      · rfl

/-- The parser is in the configuration of the automaton, and no error came yet.
The lexer was asked for what is not left of the tokens. -/
structure Runs (tokens : List Located) (parse : Parse) (config : Config ℕ (Option Token) Value ParserDriver) :
    Prop where
  yystack : parse.yystack = config.stack ++ [(0, ⟨.empty, ()⟩)]
  lookahead : parse.yyla.toList ++ parse.input.map Prod.fst = config.input
  driver : parse.driver = config.state
  quiet : parse.yynerrs = 0 ∧ parse.yyerrstatus = 0 ∧ parse.errors = []
  asked : ∃ asked, tokens = asked ++ parse.input ∧
    ∀ token, parse.yyla = some token → asked.getLast? = some (token, parse.location)

variable {tokens : List Located} {parse : Parse} {config : Config ℕ (Option Token) Value ParserDriver}

theorem Runs.init (tokens : List Located) (driver : ParserDriver) :
    Runs tokens (Parse.init tokens driver) ⟨[], tokens.map Prod.fst, driver⟩ where
  yystack := rfl
  lookahead := rfl
  driver := rfl
  quiet := ⟨rfl, rfl, rfl⟩
  asked := ⟨[], rfl, nofun⟩

/-- A round comes to the action of the automaton, with the lookahead if that is
an error. -/
theorem Runs.yybackup_eq (runs : Runs tokens parse config) {state : ℕ} (below : state < 104)
    {token : Option Token} {rest : List (Option Token)} (isInput : config.input = token :: rest) :
    ∃ asked, yybackup state parse = perform state token asked (action state (kind token)) ∧
      Runs tokens asked config ∧ (action state (kind token) ≠ .reduce (yydefact_.getD state 0) →
        asked.yyla = some token) := by
  have inside : state < yypact_.length := by
    rw [lengths.1]
    exact below
  rw [yybackup, getElem?_getD inside 0]
  simp only [Option.bind_eq_bind, Option.bind_some]
  by_cases isDefault : yypact_.getD state 0 = yypact_ninf_
  · have isAction : action state (kind token) = defaultAction state := by rw [action, if_pos isDefault]
    rw [if_pos isDefault, yydefault_eq below token, isAction]
    refine ⟨parse, rfl, runs, fun other => absurd ?_ other⟩
    have reduces := consistent below isDefault
    rw [defaultAction] at reduces ⊢
    split
    · rename_i isZero
      simp only [isZero] at reduces
      exact absurd rfl reduces
    · rfl
  · rw [if_neg isDefault]
    have lookahead := runs.lookahead
    obtain ⟨asked, split, last⟩ := runs.asked
    cases isLa : parse.yyla with
    | some other =>
        rw [isLa, isInput] at lookahead
        obtain ⟨rfl, rfl⟩ := List.cons.inj lookahead
        exact ⟨parse, yyaction_eq below other parse isDefault, runs, fun _ => isLa⟩
    | none =>
        rw [isLa, isInput] at lookahead
        cases isLeft : parse.input with
        | nil =>
            rw [isLeft] at lookahead
            cases lookahead
        | cons entry input =>
            obtain ⟨other, location⟩ := entry
            rw [isLeft] at lookahead split
            obtain ⟨rfl, rfl⟩ := List.cons.inj lookahead
            refine ⟨_, yyaction_eq below other _ isDefault, ?_, fun _ => rfl⟩
            exact
              { yystack := runs.yystack
                lookahead := isInput.symm
                driver := runs.driver
                quiet := runs.quiet
                asked := ⟨asked ++ [(other, location)], by simp [split], by simp⟩ }

/-! ## Reductions -/

theorem yyr2_eq {rule : ℕ} (member : rule ∈ rules.all) : yyr2_[rule]? = some (rhs rule).length := by
  have lengths : ∀ rule ∈ rules.all, yyr2_[rule]? = some (rhs rule).length := by decide
  exact lengths rule member

theorem yyr1_eq {rule : ℕ} (member : rule ∈ rules.all) : yyr1_[rule]? = some (lhs rule).number := by
  have numbers : ∀ rule ∈ rules.all, yyr1_[rule]? = some (lhs rule).number := by decide
  exact numbers rule member

/-- A state that predicts a nonterminal has an entry for it. -/
theorem yy_lr_goto_state_eq {state : ℕ} {name : Nonterminal} (predicted : name ∈ certificate.predicted state) :
    yy_lr_goto_state_ state name.number = some (goto state name : ℤ) := by
  have entries : ∀ state ∈ states, ∀ name ∈ certificate.predicted state,
      yy_lr_goto_state_ state name.number = some (goto state name : ℤ) := by
    decide +kernel
  exact entries state (mem_states (.inr (List.ne_nil_of_mem predicted))) name predicted

theorem yyreduce_eq {rule : ℕ} {front below : List (ℕ × Value)} {value : Value} {driver : ParserDriver}
    (member : rule ∈ rules.all) (popped : front.length = (rhs rule).length)
    (predicted : lhs rule ∈ certificate.predicted (automaton.top below))
    (isStack : parse.yystack = front ++ (below ++ [(0, ⟨.empty, ()⟩)]))
    (acted : act rule (front.reverse.map Prod.snd) parse.driver = some (value, driver)) :
    yyreduce rule parse = some (.yynewstate { parse with
      yystack := (goto (automaton.top below) (lhs rule), value) :: (below ++ [(0, ⟨.empty, ()⟩)])
      driver }) := by
  obtain ⟨bottom, isTop⟩ :
      ∃ bottom, (below ++ [(0, ⟨.empty, ()⟩)])[0]? = some (automaton.top below, bottom) := by
    cases below with
    | nil => exact ⟨_, rfl⟩
    | cons entry below => exact ⟨entry.2, rfl⟩
  have isEntry : parse.yystack[(rhs rule).length]? = some (automaton.top below, bottom) := by
    rw [isStack, List.getElem?_append_right (by omega), popped, Nat.sub_self, isTop]
  have isFront : parse.yystack.take (rhs rule).length = front := by
    rw [isStack, ← popped, List.take_left]
  have isBelow : parse.yystack.drop (rhs rule).length = below ++ [(0, ⟨.empty, ()⟩)] := by
    rw [isStack, ← popped, List.drop_left]
  simp only [yyreduce, yyr2_eq member, isEntry, yyr1_eq member, yy_lr_goto_state_eq predicted, isFront,
    isBelow, acted, Option.bind_eq_bind, Option.bind_some]
  rfl

/-! ## Errors -/

/-- No state shifts the error token. -/
theorem errorTarget_eq {state : ℕ} (below : state < 104) : errorTarget state = some none := by
  have never : ∀ state < 104, errorTarget state = some none := by decide +kernel
  exact never state below

theorem yyerrlab1_eq (parse : Parse) {yystack : List (ℕ × Value)} (nonempty : yystack ≠ [])
    (below : ∀ entry ∈ yystack, entry.1 < 104) :
    ∃ last, yyerrlab1 parse yystack =
      some (.yyreturn 1 { parse with yystack := [last], yyerrstatus := 3 }) := by
  induction yystack with
  | nil => exact absurd rfl nonempty
  | cons entry yystack ih =>
      obtain ⟨state, value⟩ := entry
      rw [yyerrlab1, errorTarget_eq (below _ List.mem_cons_self)]
      by_cases isLast : yystack = []
      · exact ⟨(state, value), by simp [isLast]⟩
      · obtain ⟨last, same⟩ := ih isLast fun entry member => below entry (List.mem_cons_of_mem _ member)
        exact ⟨last, by simp [isLast, same]⟩

/-! ## Messages -/

/-- The name of a symbol in a message. -/
def name (number : ℕ) : String := yytname_.getD number ""

/-- The kinds of tokens that the tables have an action for. -/
def expected (state : ℕ) : List Terminal := terminals.filter fun kind => action state kind ≠ .error

/-- What there is room for in a message: all or nothing. -/
def reported {α : Type} (names : List α) : List α :=
  if names.length < YYERROR_VERBOSE_ARGS_MAXIMUM then names else []

theorem reported_map {α β : Type} (f : α → β) (names : List α) :
    reported (names.map f) = (reported names).map f := by
  rw [reported, reported, List.length_map]
  split <;> rfl

/-- What `yysyntax_error_` asks of `yyx`. -/
def isExpected (yyn : ℤ) (yyx : ℕ) : Bool :=
  decide (entry yycheck_ (yyx + yyn) = yyx ∧ (yyx : ℤ) ≠ yyterror_)

theorem expectedNames_eq {yyn : ℤ} {numbers : List ℕ}
    (inside : ∀ yyx ∈ numbers, 0 ≤ yyx + yyn ∧ yyx + yyn ≤ yylast_ ∧ yyx < 59) (unexpected : String)
    {names : List String} (few : names.length < YYERROR_VERBOSE_ARGS_MAXIMUM) :
    expectedNames yyn numbers (unexpected :: names) =
      some (unexpected :: reported (names ++ (numbers.filter (isExpected yyn)).map name)) := by
  induction numbers generalizing names with
  | nil => simp [expectedNames, reported, few]
  | cons yyx numbers ih =>
      obtain ⟨nonneg, below, isName⟩ := inside yyx List.mem_cons_self
      have others := fun yyx member => inside yyx (List.mem_cons_of_mem _ member)
      have inTable : (yyx + yyn : ℤ) < (109 : ℕ) := by
        rw [yylast_] at below
        omega
      have isCheck := read_eq nonneg (lengths.2.2.1 ▸ inTable : _ < (yycheck_.length : ℤ))
      have isEntry := read_eq nonneg (lengths.2.2.2.1 ▸ inTable : _ < (yytable_.length : ℤ))
      have isString := getElem?_getD (lengths.2.2.2.2 ▸ isName : yyx < yytname_.length) ""
      rw [expectedNames]
      simp only [isCheck, isEntry, Option.bind_eq_bind, Option.bind_some]
      by_cases passes : isExpected yyn yyx = true
      · rw [if_pos (of_decide_eq_true passes), if_pos (yytable_not_error nonneg below),
          List.filter_cons_of_pos passes, List.map_cons]
        by_cases full : (unexpected :: names).length = YYERROR_VERBOSE_ARGS_MAXIMUM
        · have tooMany : reported (names ++ name yyx :: (numbers.filter (isExpected yyn)).map name) = [] := by
            rw [reported, if_neg]
            simp only [List.length_append, List.length_cons] at full ⊢
            omega
          rw [if_pos full, tooMany]
          rfl
        · have room : (names ++ [name yyx]).length < YYERROR_VERBOSE_ARGS_MAXIMUM := by
            simp only [List.length_append, List.length_cons, List.length_nil] at full ⊢
            omega
          rw [if_neg full, isString]
          have rest := ih others room
          rw [List.append_assoc] at rest
          exact rest
      · rw [if_neg (fun holds => passes (decide_eq_true holds)), List.filter_cons_of_neg passes]
        exact ih others few

/-- The names that the message of an error takes. -/
theorem yyarg_eq {state : ℕ} (below : state < 104) (isError : defaultAction state = .error) (kind : Terminal) :
    yyarg state kind = some (name kind.number :: (reported (expected state)).map (name ·.number)) := by
  have isName : kind.number < yytname_.length := by
    cases kind <;> decide
  have inside : state < yypact_.length := by
    rw [lengths.1]
    exact below
  have notDefault : yypact_.getD state 0 ≠ yypact_ninf_ := fun isDefault => consistent below isDefault isError
  have ranges : ∀ state < 104, yydefact_.getD state 0 = 0 →
      let yyn := yypact_.getD state 0
      let yyxbegin := if yyn < 0 then -yyn else 0
      let yychecklim := yylast_ - yyn + 1
      let yyxend := if yychecklim < yyntokens_ then yychecklim else yyntokens_
      let numbers := (List.range yyxend.toNat).drop yyxbegin.toNat
      (∀ yyx ∈ numbers, 0 ≤ yyx + yyn ∧ yyx + yyn ≤ yylast_ ∧ yyx < 59) ∧
        numbers.filter (isExpected yyn) = (expected state).map Terminal.number := by
    decide +kernel
  obtain ⟨inRange, same⟩ := ranges state below (defaultAction_eq_error.mp isError)
  rw [yyarg, getElem?_getD isName "", getElem?_getD inside 0]
  simp only [Option.bind_eq_bind, Option.bind_some, if_neg notDefault]
  have room : ([] : List String).length < YYERROR_VERBOSE_ARGS_MAXIMUM := by decide
  have names := expectedNames_eq inRange (name kind.number) room
  rw [same, List.nil_append, List.map_map, reported_map] at names
  exact names

/-- The text of an error at a token, with the kinds that are expected. -/
def message (unexpected : Terminal) (kinds : List Terminal) : String :=
  String.ofList (substitute (yyformat (kinds.length + 1)).toList
    (name unexpected.number :: kinds.map (name ·.number)))

theorem yysyntax_error_eq {state : ℕ} (below : state < 104) (isError : defaultAction state = .error)
    (token : Option Token) :
    yysyntax_error_ state (some token) = some (message (kind token) (reported (expected state))) := by
  simp only [yysyntax_error_, yyarg_eq below isError, Option.bind_eq_bind, Option.bind_some, message,
    List.length_cons, List.length_map]
  rfl

/-- The parser gave up at the lookahead, after the one error that it reports. -/
structure Fails (tokens : List Located) (parse : Parse)
    (config : Config ℕ (Option Token) Value ParserDriver) : Prop where
  driver : parse.driver = config.state
  reported : ∃ read token location, tokens = read ++ (token, location) :: parse.input ∧
    config.input = token :: parse.input.map Prod.fst ∧
    parse.errors = [(location, message (kind token) (reported (expected (automaton.top config.stack))))]
  yynerrs : parse.yynerrs = 1

theorem Runs.yyerrlab_eq (runs : Runs tokens parse config)
    (below : ∀ entry ∈ config.stack, entry.1 < 104) (inTables : automaton.top config.stack < 104)
    (isError : defaultAction (automaton.top config.stack) = .error) {token : Option Token}
    (isLa : parse.yyla = some token) :
    ∃ last, yyerrlab (automaton.top config.stack) parse = some (.yyreturn 1 last) ∧
      Fails tokens last config := by
  obtain ⟨text, isText⟩ : ∃ text, text =
      message (kind token) (reported (expected (automaton.top config.stack))) := ⟨_, rfl⟩
  have isMessage := yysyntax_error_eq inTables isError token
  rw [← isText] at isMessage
  obtain ⟨isNerrs, isStatus, isErrors⟩ := runs.quiet
  have nonempty : parse.yystack ≠ [] := by simp [runs.yystack]
  have allBelow : ∀ entry ∈ parse.yystack, entry.1 < 104 := by
    intro entry member
    rw [runs.yystack] at member
    rcases List.mem_append.mp member with inStack | isBottom
    · exact below entry inStack
    · rw [List.mem_singleton.mp isBottom]
      decide
  have isRound : yyerrlab (automaton.top config.stack) parse = yyerrlab1 { parse with
      yynerrs := parse.yynerrs + 1,
      errors := parse.errors ++ [(parse.location, text)] } parse.yystack := by
    simp [yyerrlab, isStatus, isMessage, isLa]
  obtain ⟨last, same⟩ := yyerrlab1_eq { parse with
    yynerrs := parse.yynerrs + 1,
    errors := parse.errors ++ [(parse.location, text)] } nonempty allBelow
  obtain ⟨asked, split, isLast⟩ := runs.asked
  obtain ⟨read, rfl⟩ := List.getLast?_eq_some_iff.mp (isLast token isLa)
  refine ⟨_, isRound.trans same, ?_⟩
  exact
    { driver := runs.driver
      reported := ⟨read, token, parse.location, by simp [split], by simp [← runs.lookahead, isLa],
        by simp [isErrors, isText]⟩
      yynerrs := by simp [isNerrs] }

/-! ## The loop -/

/-- A round, or many, end like the steps of the automaton. -/
inductive Answers (tokens : List Located) :
    Option Round → Outcome (Config ℕ (Option Token) Value ParserDriver) → Prop
  | running {next last} : Runs tokens next last →
      Answers tokens (some (.yynewstate next)) (.running last)
  | accepted {next last} : Runs tokens next last →
      Answers tokens (some (.yyreturn 0 next)) (.accepted last)
  | rejected {next last} : Fails tokens next last →
      Answers tokens (some (.yyreturn 1 next)) (.rejected last)

/-- What the lexer returns: the tokens, and `END` at last. -/
def symbols (front : List (Token × Location)) (last : Location) : List Located :=
  front.map (fun entry => (some entry.1, entry.2)) ++ [(none, last)]

theorem symbols_fst (front : List (Token × Location)) (last : Location) :
    (symbols front last).map Prod.fst = (front.map Prod.fst).map some ++ [none] := by
  simp [symbols, Function.comp_def]

theorem symbols_closed (front : List (Token × Location)) (last : Location) :
    certificate.Closed semantics ((symbols front last).map Prod.fst) := by
  refine ⟨(front.map Prod.fst).map some, none, symbols_fst front last, rfl, ?_⟩
  intro other member
  obtain ⟨token, -, rfl⟩ := List.mem_map.mp member
  cases token <;> nofun

theorem Runs.head?_eq (runs : Runs tokens parse config) :
    ∃ value, parse.yystack.head? = some (automaton.top config.stack, value) := by
  rw [runs.yystack]
  cases config.stack with
  | nil => exact ⟨_, rfl⟩
  | cons entry stack => exact ⟨entry.2, rfl⟩

theorem Runs.shift {stack : List (ℕ × Value)} {token : Option Token} {rest : List (Option Token)}
    {state : ParserDriver} (runs : Runs tokens parse ⟨stack, token :: rest, state⟩)
    (isLa : parse.yyla = some token) (target : ℕ) :
    Runs tokens { parse with
        yystack := (target, leaf token) :: parse.yystack, yyla := none, yyerrstatus := parse.yyerrstatus - 1 }
      ⟨(target, leaf token) :: stack, rest, state⟩ where
  yystack := by simp [runs.yystack]
  lookahead := by
    have lookahead := runs.lookahead
    rw [isLa] at lookahead
    exact (List.cons.inj lookahead).2
  driver := runs.driver
  quiet := ⟨runs.quiet.1, by simp [runs.quiet.2.1], runs.quiet.2.2⟩
  asked := ⟨runs.asked.choose, runs.asked.choose_spec.1, nofun⟩

theorem Runs.reduce {front below : List (ℕ × Value)} {input : List (Option Token)} {state acted : ParserDriver}
    (runs : Runs tokens parse ⟨front ++ below, input, state⟩) (entry : ℕ × Value) :
    Runs tokens { parse with yystack := entry :: (below ++ [(0, ⟨.empty, ()⟩)]), driver := acted }
      ⟨entry :: below, input, acted⟩ where
  yystack := rfl
  lookahead := runs.lookahead
  driver := rfl
  quiet := runs.quiet
  asked := runs.asked

theorem yynewstate_answers {driver : ParserDriver}
    (closed : certificate.Closed semantics (tokens.map Prod.fst)) (runs : Runs tokens parse config)
    (reached : automaton.Reaches rules semantics ⟨[], tokens.map Prod.fst, driver⟩ config) :
    Answers tokens (yynewstate parse) (automaton.step rules semantics config) := by
  have sound := checked.sound
  obtain ⟨read, parsed, -⟩ := (Certificate.Parsed.initial driver _).reaches sound reached
  obtain ⟨symbols, stacked, -⟩ := id parsed
  have inTables {state : ℕ} (alive : certificate.kernel state ≠ []) : state < 104 :=
    List.mem_range.mp (mem_states (.inl alive))
  have below := inTables (stacked.kernel_ne_nil sound)
  obtain ⟨value, isHead⟩ := runs.head?_eq
  by_cases final : automaton.top config.stack = automaton.final
  · have accepts : yynewstate parse = some (.yyreturn 0 parse) := by
      rw [yynewstate, isHead]
      exact if_pos final
    rw [Automaton.step, if_pos final, accepts]
    exact .accepted runs
  · have goesOn : yynewstate parse = yybackup (automaton.top config.stack) parse := by
      rw [yynewstate, isHead]
      exact if_neg final
    have notEnd := mt (sound.final_iff closed reached).mp final
    obtain ⟨token, rest, isInput⟩ := List.exists_cons_of_ne_nil notEnd
    obtain ⟨asked, same, askedRuns, isLa⟩ := runs.yybackup_eq below isInput
    rw [goesOn, same]
    obtain ⟨stack, input, state⟩ := config
    obtain rfl : input = token :: rest := isInput
    cases action : action (automaton.top stack) (kind token) with
    | shift target =>
        have moves : automaton.Moves rules semantics ⟨stack, token :: rest, state⟩ _ := .shift final action
        rw [moves.step_eq]
        exact .running (askedRuns.shift (isLa (by rw [action]; rintro ⟨⟩)) target)
    | reduce rule =>
        obtain ⟨member, notGoal, front, bottom, _, _, second, between, rfl, popped, _, predicted, _, _, inRule⟩ :=
          parsed.handle sound final action
        obtain ⟨⟨value, acted⟩, isAct⟩ :=
          Option.isSome_iff_exists.mp (actions_succeed rule member notGoal _ _ _ _ inRule)
        have moves : automaton.Moves rules semantics ⟨front ++ bottom, token :: rest, state⟩ _ :=
          .reduce final action popped isAct
        have isStack : asked.yystack = front ++ (bottom ++ [(0, ⟨.empty, ()⟩)]) := by
          rw [askedRuns.yystack, List.append_assoc]
        have reduces := yyreduce_eq member popped predicted isStack (askedRuns.driver.symm ▸ isAct)
        rw [moves.step_eq, perform, reduces]
        exact .running (askedRuns.reduce _)
    | error =>
        obtain ⟨last, gaveUp, fails⟩ :=
          askedRuns.yyerrlab_eq (fun entry member => inTables (stacked.alive entry member))
          below (default_of_error action) (isLa (by rw [action]; rintro ⟨⟩))
        rw [Automaton.step_rejects (g := rules) (m := semantics) final action, perform, gaveUp]
        exact .rejected fails

theorem loop_answers {driver : ParserDriver}
    (closed : certificate.Closed semantics (tokens.map Prod.fst)) (fuel : ℕ) (runs : Runs tokens parse config)
    (reached : automaton.Reaches rules semantics ⟨[], tokens.map Prod.fst, driver⟩ config) :
    Answers tokens (loop fuel parse) (automaton.run rules semantics fuel config) := by
  induction fuel generalizing parse config with
  | zero => exact .running runs
  | succ fuel ih =>
      have answers := yynewstate_answers closed runs reached
      rw [loop, Automaton.run]
      revert answers
      generalize stepped : automaton.step rules semantics config = outcome
      generalize yynewstate parse = round
      rintro (@⟨next, last, nextRuns⟩ | lastRuns | fails)
      · exact ih nextRuns (reached.tail (Automaton.moves_of_step stepped))
      · exact .accepted lastRuns
      · exact .rejected fails

end ParserTab

end Snowlake
