import Snowlake.Cpp.Lexer

/-! # Statements of C++

The part of the statement grammar that synthesized code is meant to be in:
declarations with initializers, expression statements, `if` and `for` with a
braced block, and `return`.  All declarators of a declaration share its type,
which is written once.
-/

namespace Cpp

inductive QualifiedName : List Token → Prop
  | name : QualifiedName [.identifier]
  | nested {rest} : QualifiedName rest → QualifiedName (.identifier :: .scope :: rest)

inductive TypeName : List Token → Prop
  | keyword : TypeName [.typeKeyword]
  | name {name} : QualifiedName name → TypeName name
  | template {name} : QualifiedName name → TypeName (name ++ [.less, .greater])
  | templateOf {name argument} : QualifiedName name → TypeName argument →
      TypeName (name ++ .less :: (argument ++ [.greater]))

/-! The operators are left ambiguous: only the language matters. -/

mutual
inductive Expression : List Token → Prop
  | number : Expression [.number]
  | name {name} : QualifiedName name → Expression name
  | call {function arguments} : Expression function → Arguments arguments →
      Expression (function ++ .lparen :: (arguments ++ [.rparen]))
  | construct {type arguments} : TypeName type → Arguments arguments →
      Expression (type ++ .lparen :: (arguments ++ [.rparen]))
  | element {array index} : Expression array → Expression index →
      Expression (array ++ .lbracket :: (index ++ [.rbracket]))
  | member {object} : Expression object → Expression (object ++ [.dot, .identifier])
  | not {operand} : Expression operand → Expression (.bang :: operand)
  | deref {operand} : Expression operand → Expression (.star :: operand)
  | increment {operand} : Expression operand → Expression (.increment :: operand)
  | less {left right} : Expression left → Expression right →
      Expression (left ++ .less :: right)

inductive ExpressionList : List Token → Prop
  | one {expression} : Expression expression → ExpressionList expression
  | cons {expression rest} : Expression expression → ExpressionList rest →
      ExpressionList (expression ++ .comma :: rest)

inductive Arguments : List Token → Prop
  | none : Arguments []
  | some {arguments} : ExpressionList arguments → Arguments arguments
end

/-- `name = initializer`, and more of them behind commas. -/
inductive Declarators : List Token → Prop
  | one {initializer} : Expression initializer →
      Declarators (.identifier :: .assign :: initializer)
  | cons {initializer rest} : Expression initializer → Declarators rest →
      Declarators (.identifier :: .assign :: (initializer ++ .comma :: rest))

mutual
inductive Statement : List Token → Prop
  | declaration {type declarators} : TypeName type → Declarators declarators →
      Statement (type ++ (declarators ++ [.semicolon]))
  | expression {expression} : Expression expression → Statement (expression ++ [.semicolon])
  | assignment {left right} : Expression left → Expression right →
      Statement (left ++ .assign :: (right ++ [.semicolon]))
  | ifThen {condition body} : Expression condition → Statements body →
      Statement (.keywordIf :: .lparen ::
        (condition ++ .rparen :: .lbrace :: (body ++ [.rbrace])))
  | forLoop {type declarators condition steps body} : TypeName type → Declarators declarators →
      Expression condition → ExpressionList steps → Statements body →
      Statement (.keywordFor :: .lparen :: (type ++ (declarators ++ .semicolon ::
        (condition ++ .semicolon :: (steps ++ .rparen :: .lbrace :: (body ++ [.rbrace]))))))
  | returnValue {value} : Expression value → Statement (.keywordReturn :: (value ++ [.semicolon]))

/-- A sequence of complete statements. -/
inductive Statements : List Token → Prop
  | nil : Statements []
  | cons {statement rest} : Statement statement → Statements rest → Statements (statement ++ rest)
end

theorem Statements.append {first second : List Token} :
    Statements first → Statements second → Statements (first ++ second)
  | .nil, isSecond => isSecond
  | .cons isStatement isRest, isSecond => by
      rw [List.append_assoc]
      exact .cons isStatement (isRest.append isSecond)

theorem Statements.single {statement : List Token} (isStatement : Statement statement) :
    Statements statement := by
  rw [← List.append_nil statement]
  exact .cons isStatement .nil

/-! ## A recogniser

A finite automaton that accepts every sequence of statements, and some texts
besides.  What it rejects is no sequence of statements.
-/

/-- What the tokens so far are the start of. -/
inductive State where
  /-- A statement begins here. -/
  | start
  /-- A name at the start of a statement: of a type or of something else. -/
  | lead
  | leadScope
  /-- The type of a declaration and the declared name. -/
  | named
  /-- An operand begins here. -/
  | expecting
  | after
  /-- Behind `>`, where a template argument list may end. -/
  | closeAngle
  | typeWord
  | forKeyword
  | forHeader
  | forType
  | forScope
  | ifKeyword
  | ifHeader
  /-- A name and its members at the start of a condition, where no comma may follow. -/
  | ifChain
  | ifDot
  | returnKeyword
  /-- A name right behind `return`, which is not assigned to. -/
  | returned
  deriving Repr, DecidableEq

def step : State → Token → Option State
  | .start, .identifier | .start, .typeKeyword => some .lead
  | .start, .number => some .after
  | .start, .star | .start, .bang | .start, .increment => some .expecting
  | .start, .keywordIf => some .ifKeyword
  | .start, .keywordFor => some .forKeyword
  | .start, .keywordReturn => some .returnKeyword
  | .start, .rbrace => some .start
  | .lead, .identifier => some .named
  | .lead, .scope => some .leadScope
  | .lead, .less | .lead, .lparen | .lead, .lbracket | .lead, .dot | .lead, .assign
  | .lead, .comma => some .expecting
  | .lead, .rparen => some .after
  | .lead, .semicolon => some .start
  | .leadScope, .identifier => some .lead
  | .named, .assign => some .expecting
  | .expecting, .identifier | .expecting, .number => some .after
  | .expecting, .typeKeyword => some .typeWord
  | .expecting, .star | .expecting, .bang | .expecting, .increment => some .expecting
  | .expecting, .rparen => some .after
  | .expecting, .greater => some .closeAngle
  | .after, .lparen | .after, .lbracket | .after, .dot | .after, .scope | .after, .less
  | .after, .comma | .after, .assign => some .expecting
  | .after, .rparen | .after, .rbracket => some .after
  | .after, .greater => some .closeAngle
  | .after, .semicolon | .after, .lbrace => some .start
  | .closeAngle, .identifier => some .named
  | .closeAngle, .lparen => some .expecting
  | .closeAngle, .greater => some .closeAngle
  | .typeWord, .lparen => some .expecting
  | .typeWord, .greater => some .closeAngle
  | .forKeyword, .lparen => some .forHeader
  | .forHeader, .identifier | .forHeader, .typeKeyword => some .forType
  | .forType, .identifier => some .named
  | .forType, .scope => some .forScope
  | .forType, .less => some .expecting
  | .forScope, .identifier => some .forType
  | .ifKeyword, .lparen => some .ifHeader
  | .ifHeader, .identifier => some .ifChain
  | .ifHeader, .typeKeyword => some .typeWord
  | .ifHeader, .number => some .after
  | .ifHeader, .star | .ifHeader, .bang | .ifHeader, .increment => some .expecting
  | .ifChain, .dot => some .ifDot
  | .ifChain, .lparen | .ifChain, .lbracket | .ifChain, .scope | .ifChain, .less => some .expecting
  | .ifChain, .rparen => some .after
  | .ifDot, .identifier => some .ifChain
  | .returnKeyword, .identifier => some .returned
  | .returnKeyword, .typeKeyword => some .typeWord
  | .returnKeyword, .number => some .after
  | .returnKeyword, .star | .returnKeyword, .bang | .returnKeyword, .increment => some .expecting
  | .returned, .lparen | .returned, .lbracket | .returned, .dot | .returned, .scope
  | .returned, .less => some .expecting
  | .returned, .semicolon => some .start
  | _, _ => none

def run : State → List Token → Option State
  | state, [] => some state
  | state, token :: rest => (step state token).bind fun next => run next rest

theorem run_cons_of_step {state next : State} {token : Token} (stepped : step state token = some next)
    (rest : List Token) : run state (token :: rest) = run next rest := by
  rw [run, stepped, Option.bind_some]

theorem run_append (state : State) (first second : List Token) :
    run state (first ++ second) = (run state first).bind fun next => run next second := by
  induction first generalizing state with
  | nil => rfl
  | cons token first ih => simp only [List.cons_append, run, ih, Option.bind_assoc]

theorem run_append_of_run {state next : State} {first : List Token} (ran : run state first = some next)
    (second : List Token) : run state (first ++ second) = run next second := by
  rw [run_append, ran, Option.bind_some]

theorem run_append_of_stuck {state : State} {first : List Token} (stuck : run state first = none)
    (second : List Token) : run state (first ++ second) = none := by
  rw [run_append, stuck, Option.bind_none]

/-- Where the automaton may be behind a name. -/
def behindName : State → List State
  | .start | .leadScope => [.lead]
  | .expecting => [.after]
  | .ifHeader => [.ifChain, .after]
  | .returnKeyword => [.returned, .after]
  | .forHeader | .forScope => [.forType]
  | _ => []

/-- Where the automaton may be behind a type. -/
def behindType : State → List State
  | .start => [.lead, .closeAngle]
  | .expecting => [.after, .typeWord, .closeAngle]
  | .ifHeader => [.ifChain, .after, .typeWord, .closeAngle]
  | .returnKeyword => [.returned, .after, .typeWord, .closeAngle]
  | .forHeader => [.forType, .closeAngle]
  | _ => []

/-- Where the automaton may be behind an expression. -/
def behindExpression : State → List State
  | .start => [.lead, .after]
  | .expecting => [.after]
  | .ifHeader => [.ifChain, .after]
  | .returnKeyword => [.returned, .after]
  | _ => []

/-! ## What it accepts -/

theorem run_qualifiedName {tokens : List Token} (isName : QualifiedName tokens) (state : State)
    (begins : behindName state ≠ []) : ∃ next ∈ behindName state, run state tokens = some next := by
  induction isName generalizing state with
  | name => cases state <;> first | exact absurd rfl begins | exact ⟨_, List.mem_cons_self, rfl⟩
  | nested rest ih =>
      -- Behind `::` the automaton no longer tells where the name began, or still does.
      cases state with
      | start | leadScope => exact ih .leadScope (by decide)
      | forHeader | forScope => exact ih .forScope (by decide)
      | expecting => exact ih .expecting (by decide)
      | ifHeader | returnKeyword =>
          obtain ⟨next, member, ran⟩ := ih .expecting (by decide)
          exact ⟨next, List.mem_cons_of_mem _ member, ran⟩
      | _ => exact absurd rfl begins

section Steps

variable {state : State}

theorem behindName_ne_nil (begins : behindType state ≠ []) : behindName state ≠ [] := by
  cases state <;> first | exact absurd rfl begins | decide

theorem behindType_ne_nil (begins : behindExpression state ≠ []) : behindType state ≠ [] := by
  cases state <;> first | exact absurd rfl begins | decide

theorem behindName_behindType (begins : behindType state ≠ []) :
    ∀ next ∈ behindName state, next ∈ behindType state := by
  cases state <;> first | exact absurd rfl begins | decide

theorem behindName_behindExpression (begins : behindExpression state ≠ []) :
    ∀ next ∈ behindName state, next ∈ behindExpression state := by
  cases state <;> first | exact absurd rfl begins | decide

theorem closeAngle_behindType (begins : behindType state ≠ []) : .closeAngle ∈ behindType state := by
  cases state <;> first | exact absurd rfl begins | decide

theorem after_behindExpression (begins : behindExpression state ≠ []) :
    .after ∈ behindExpression state := by
  cases state <;> first | exact absurd rfl begins | decide

/-- Where an expression begins, a numeral or a prefix operator may stand. -/
theorem step_begin (begins : behindExpression state ≠ []) : step state .number = some .after ∧
    ∀ operator ∈ [Token.bang, .star, .increment], step state operator = some .expecting := by
  cases state <;> first | exact absurd rfl begins | decide

theorem behindName_less : ∀ next ∈ behindName state, step next .less = some .expecting := by
  cases state <;> decide

theorem behindType_greater :
    ∀ next ∈ behindType .expecting, step next .greater = some .closeAngle := by
  decide

theorem behindType_lparen : state ≠ .forHeader →
    ∀ next ∈ behindType state, step next .lparen = some .expecting := by
  cases state <;> decide

/-- Behind an expression any postfix or binary operator may stand. -/
theorem behindExpression_operator : ∀ next ∈ behindExpression state,
    ∀ operator ∈ [Token.lparen, .lbracket, .less], step next operator = some .expecting := by
  cases state <;> decide

theorem behindExpression_ne_nil (begins : state = .start ∨ state = .expecting) :
    behindExpression state ≠ [] := by
  rcases begins with rfl | rfl <;> decide

theorem behindExpression_comma (begins : state = .start ∨ state = .expecting) :
    ∀ next ∈ behindExpression state, step next .comma = some .expecting := by
  rcases begins with rfl | rfl <;> decide

theorem behindExpression_member : ∀ next ∈ behindExpression state,
    ∃ last ∈ behindExpression state, run next [.dot, .identifier] = some last := by
  cases state <;> decide

end Steps

theorem run_typeName {tokens : List Token} (isType : TypeName tokens) (state : State)
    (begins : behindType state ≠ []) : ∃ next ∈ behindType state, run state tokens = some next := by
  induction isType generalizing state with
  | keyword =>
      cases state with
      | start | expecting | ifHeader | returnKeyword | forHeader =>
          exact ⟨_, by decide, rfl⟩
      | _ => exact absurd rfl begins
  | name isName =>
      obtain ⟨next, member, ran⟩ := run_qualifiedName isName _ (behindName_ne_nil begins)
      exact ⟨next, behindName_behindType begins _ member, ran⟩
  | template isName =>
      obtain ⟨next, member, ran⟩ := run_qualifiedName isName _ (behindName_ne_nil begins)
      refine ⟨.closeAngle, closeAngle_behindType begins, ?_⟩
      rw [run_append_of_run ran, run_cons_of_step (behindName_less _ member)]
      rfl
  | templateOf isName _ ih =>
      obtain ⟨next, member, ran⟩ := run_qualifiedName isName _ (behindName_ne_nil begins)
      obtain ⟨last, memberLast, ranArgument⟩ := ih .expecting (by decide)
      refine ⟨.closeAngle, closeAngle_behindType begins, ?_⟩
      rw [run_append_of_run ran, run_cons_of_step (behindName_less _ member), run_append_of_run ranArgument,
        run_cons_of_step (behindType_greater _ memberLast)]
      rfl

/-- An operand behind an operator ends like an expression. -/
theorem run_operand {state : State} {tokens : List Token} (begins : behindExpression state ≠ [])
    (ran : ∃ next ∈ behindExpression .expecting, run .expecting tokens = some next) :
    ∃ next ∈ behindExpression state, run .expecting tokens = some next := by
  obtain ⟨next, member, ran⟩ := ran
  obtain rfl := List.mem_singleton.mp member
  exact ⟨.after, after_behindExpression begins, ran⟩

mutual
theorem run_expression : ∀ {tokens : List Token}, Expression tokens → ∀ (state : State),
    behindExpression state ≠ [] → ∃ next ∈ behindExpression state, run state tokens = some next
  | _, .number, state, begins => by
      refine ⟨.after, after_behindExpression begins, ?_⟩
      rw [run_cons_of_step (step_begin begins).1]
      rfl
  | _, .name isName, state, begins => by
      obtain ⟨next, member, ran⟩ := run_qualifiedName isName _ (behindName_ne_nil (behindType_ne_nil begins))
      exact ⟨next, behindName_behindExpression begins next member, ran⟩
  | _, .call isFunction areArguments, state, begins => by
      obtain ⟨next, member, ran⟩ := run_expression isFunction _ begins
      refine ⟨.after, after_behindExpression begins, ?_⟩
      rw [run_append_of_run ran, run_cons_of_step (behindExpression_operator _ member _ (by decide)),
        run_arguments areArguments]
  | _, .construct isType areArguments, state, begins => by
      obtain ⟨next, member, ran⟩ := run_typeName isType _ (behindType_ne_nil begins)
      have noHeader : state ≠ .forHeader := fun same => begins (same ▸ rfl)
      refine ⟨.after, after_behindExpression begins, ?_⟩
      rw [run_append_of_run ran, run_cons_of_step (behindType_lparen noHeader _ member),
        run_arguments areArguments]
  | _, .element isArray isIndex, state, begins => by
      obtain ⟨next, member, ran⟩ := run_expression isArray _ begins
      obtain ⟨last, memberLast, ranIndex⟩ := run_expression isIndex .expecting (by decide)
      obtain rfl := List.mem_singleton.mp memberLast
      refine ⟨.after, after_behindExpression begins, ?_⟩
      rw [run_append_of_run ran, run_cons_of_step (behindExpression_operator _ member _ (by decide)),
        run_append_of_run ranIndex]
      rfl
  | _, .member isObject, state, begins => by
      obtain ⟨next, member, ran⟩ := run_expression isObject _ begins
      rw [run_append_of_run ran]
      exact behindExpression_member next member
  | _, .not isOperand, state, begins => by
      rw [run_cons_of_step ((step_begin begins).2 _ (by decide))]
      exact run_operand begins (run_expression isOperand _ (by decide))
  | _, .deref isOperand, state, begins => by
      rw [run_cons_of_step ((step_begin begins).2 _ (by decide))]
      exact run_operand begins (run_expression isOperand _ (by decide))
  | _, .increment isOperand, state, begins => by
      rw [run_cons_of_step ((step_begin begins).2 _ (by decide))]
      exact run_operand begins (run_expression isOperand _ (by decide))
  | _, .less isLeft isRight, state, begins => by
      obtain ⟨next, member, ran⟩ := run_expression isLeft _ begins
      rw [run_append_of_run ran, run_cons_of_step (behindExpression_operator _ member _ (by decide))]
      exact run_operand begins (run_expression isRight _ (by decide))

theorem run_expressionList : ∀ {tokens : List Token}, ExpressionList tokens → ∀ (state : State),
    state = .start ∨ state = .expecting →
      ∃ next ∈ behindExpression state, run state tokens = some next
  | _, .one isExpression, _, begins => run_expression isExpression _ (behindExpression_ne_nil begins)
  | _, .cons isExpression isRest, state, begins => by
      obtain ⟨next, member, ran⟩ := run_expression isExpression _ (behindExpression_ne_nil begins)
      rw [run_append_of_run ran, run_cons_of_step (behindExpression_comma begins _ member)]
      exact run_operand (behindExpression_ne_nil begins) (run_expressionList isRest _ (.inr rfl))

theorem run_arguments : ∀ {tokens : List Token}, Arguments tokens →
    run .expecting (tokens ++ [.rparen]) = some .after
  | _, .none => rfl
  | _, .some isList => by
      obtain ⟨next, member, ran⟩ := run_expressionList isList _ (.inr rfl)
      obtain rfl := List.mem_singleton.mp member
      rw [run_append_of_run ran]
      rfl
end

theorem run_declarators {tokens : List Token} (areDeclarators : Declarators tokens) (state : State)
    (begins : state ∈ [.lead, .closeAngle, .forType, .expecting]) :
    run state tokens = some .after := by
  have declared : ∀ rest, run state (.identifier :: .assign :: rest) = run .expecting rest := by
    intro rest
    simp only [List.mem_cons, List.not_mem_nil, or_false] at begins
    rcases begins with rfl | rfl | rfl | rfl <;> rfl
  induction areDeclarators generalizing state with
  | one isInitializer =>
      obtain ⟨next, member, ran⟩ := run_expression isInitializer .expecting (by decide)
      obtain rfl := List.mem_singleton.mp member
      rw [declared, ran]
  | cons isInitializer _ ih =>
      obtain ⟨next, member, ran⟩ := run_expression isInitializer .expecting (by decide)
      obtain rfl := List.mem_singleton.mp member
      rw [declared, run_append_of_run ran]
      exact ih .expecting (by decide) fun rest => rfl

mutual
theorem run_statement : ∀ {tokens : List Token}, Statement tokens → run .start tokens = some .start
  | _, .declaration isType areDeclarators => by
      obtain ⟨next, member, ran⟩ := run_typeName isType .start (by decide)
      have begins : ∀ next ∈ behindType .start, next ∈ [.lead, .closeAngle, .forType, .expecting] := by
        decide
      rw [run_append_of_run ran, run_append_of_run (run_declarators areDeclarators _ (begins next member))]
      rfl
  | _, .expression isExpression => by
      obtain ⟨next, member, ran⟩ := run_expression isExpression .start (by decide)
      have ends : ∀ next ∈ behindExpression .start, run next [.semicolon] = some .start := by decide
      rw [run_append_of_run ran, ends next member]
  | _, .assignment isLeft isRight => by
      obtain ⟨next, member, ran⟩ := run_expression isLeft .start (by decide)
      obtain ⟨last, memberLast, ranRight⟩ := run_expression isRight .expecting (by decide)
      obtain rfl := List.mem_singleton.mp memberLast
      have assigns : ∀ next ∈ behindExpression .start, step next .assign = some .expecting := by decide
      rw [run_append_of_run ran, run_cons_of_step (assigns next member), run_append_of_run ranRight]
      rfl
  | _, .ifThen isCondition isBody => by
      obtain ⟨next, member, ran⟩ := run_expression isCondition .ifHeader (by decide)
      have opens : ∀ next ∈ behindExpression .ifHeader, step next .rparen = some .after := by decide
      rw [run_cons_of_step rfl, run_cons_of_step rfl, run_append_of_run ran,
        run_cons_of_step (opens next member), run_cons_of_step rfl,
        run_append_of_run (run_statements isBody)]
      rfl
  | _, .forLoop isType areDeclarators isCondition areSteps isBody => by
      obtain ⟨next, member, ran⟩ := run_typeName isType .forHeader (by decide)
      have begins : ∀ next ∈ behindType .forHeader,
          next ∈ [.lead, .closeAngle, .forType, .expecting] := by decide
      obtain ⟨second, memberSecond, ranCondition⟩ :=
        run_expression isCondition .start (by decide)
      have ends : ∀ next ∈ behindExpression .start, step next .semicolon = some .start := by decide
      obtain ⟨third, memberThird, ranSteps⟩ := run_expressionList areSteps _ (.inl rfl)
      have opens : ∀ next ∈ behindExpression .start, step next .rparen = some .after := by decide
      rw [run_cons_of_step rfl, run_cons_of_step rfl, run_append_of_run ran,
        run_append_of_run (run_declarators areDeclarators _ (begins next member)),
        run_cons_of_step rfl, run_append_of_run ranCondition,
        run_cons_of_step (ends second memberSecond), run_append_of_run ranSteps,
        run_cons_of_step (opens third memberThird), run_cons_of_step rfl,
        run_append_of_run (run_statements isBody)]
      rfl
  | _, .returnValue isValue => by
      obtain ⟨next, member, ran⟩ := run_expression isValue .returnKeyword (by decide)
      have ends : ∀ next ∈ behindExpression .returnKeyword, run next [.semicolon] = some .start := by
        decide
      rw [run_cons_of_step rfl, run_append_of_run ran, ends next member]

/-- Every sequence of statements is accepted. -/
theorem run_statements : ∀ {tokens : List Token}, Statements tokens → run .start tokens = some .start
  | _, .nil => rfl
  | _, .cons isStatement isRest => by
      rw [run_append_of_run (run_statement isStatement), run_statements isRest]
end

end Cpp
