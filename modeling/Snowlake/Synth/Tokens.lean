import Snowlake.Cpp.Statements
import Snowlake.Synth.Reading

/-! # The tokens of the emitted text

The characters the synthesizer streams, read by the rules of C++.  Blank lines
and comments leave no token; every other statement leaves the tokens that
`Stmt.tokens` lists, whatever stands behind it.
-/

namespace Snowlake

namespace Emitted

open Synthesizer MaximalMunch

/-! ## What is asked of names -/

/-- What is asked of the names, comments and loops of an emitted statement. -/
structure Demand where
  /-- A name that stands for a variable or a member. -/
  object : StringType → Prop
  /-- A name that is called, or stands for a type. -/
  callable : StringType → Prop
  source : ASTIdentifiable → Prop
  comment : String → Prop
  loop : Prop

section Meets

variable (demand : Demand)

mutual
def Expr.Meets : Expr → Prop
  | .ident name => demand.object name
  | .element name _ => demand.object name
  | .deref name => demand.object name
  | .call name arguments => demand.callable name ∧ Expr.MeetsList arguments

def Expr.MeetsList : List Expr → Prop
  | [] => True
  | argument :: rest => Expr.Meets argument ∧ Expr.MeetsList rest
end

variable (names : Names)

def Init.Meets : Init → Prop
  | .proof source => demand.callable names.proofMethod ∧ demand.source source
  | .value expr => expr.Meets demand

def Operand.Meets (operand : Operand) : Prop :=
  operand.expr.Meets demand ∧ ∀ counter ∈ operand.counter, demand.object counter

@[mk_iff] structure Comparison.Meets (comparison : Comparison) : Prop where
  typeCmpMethod : demand.callable names.typeCmpMethod
  lhs : comparison.lhs.Meets demand
  rhs : comparison.rhs.Meets demand
  typeCls : comparison.oprt.isSome = true → demand.callable names.typeCls

mutual
def Stmt.Meets : Stmt → Prop
  | .blank => True
  | .comment text => demand.comment text
  | .declare _ name init =>
      demand.callable names.typeCls ∧ demand.object name ∧ init.Meets demand names
  | .setup source target =>
      demand.callable names.setupMethod ∧ demand.source source ∧ target.Meets demand
  | .teardown source target =>
      demand.callable names.teardownMethod ∧ demand.source source ∧ target.Meets demand
  | .ifNot comparison body => comparison.Meets demand names ∧ Stmt.MeetsList body
  | .forRange _ _ bound body => demand.loop ∧ bound.Meets demand ∧ Stmt.MeetsList body
  | .setError _ => True
  | .returnDefault => demand.callable names.typeCls
  | .returnValue value => value.Meets demand

def Stmt.MeetsList : List Stmt → Prop
  | [] => True
  | head :: tail => Stmt.Meets head ∧ Stmt.MeetsList tail
end

end Meets

/-- The names are words, identifiables are not empty, comments are on one line. -/
def spelled : Demand where
  object name := Matches Cpp.wordPattern name.toList
  callable name := Matches Cpp.wordPattern name.toList
  source source := source.identifiers ≠ [] ∧
    ∀ name ∈ source.identifiers, Matches Cpp.wordPattern name.toList
  comment text := ∃ body, text.toList = '/' :: '/' :: body ∧ '\n' ∉ body
  loop := True

/-! ## Tokens -/

def wordToken (name : StringType) : Cpp.Token := Cpp.classify name.toList

mutual
def Expr.tokens : Expr → List Cpp.Token
  | .ident name => [wordToken name]
  | .element name _ => [wordToken name, .lbracket, .number, .rbracket]
  | .deref name => [.star, wordToken name]
  | .call name arguments => wordToken name :: .lparen :: (Expr.tokensList arguments ++ [.rparen])

def Expr.tokensList : List Expr → List Cpp.Token
  | [] => []
  | [argument] => argument.tokens
  | argument :: rest => argument.tokens ++ .comma :: Expr.tokensList rest
end

/-- The components of an identifiable, with dots. -/
def sourceTokens : List ASTIdentifier → List Cpp.Token
  | [] => []
  | [identifier] => [wordToken identifier]
  | identifier :: rest => wordToken identifier :: .dot :: sourceTokens rest

variable (names : Names)

def Init.tokens : Init → List Cpp.Token
  | .proof source =>
      wordToken names.proofMethod :: .lparen :: (sourceTokens source.identifiers ++ [.rparen])
  | .value expr => expr.tokens

def DeclType.tokens : DeclType → List Cpp.Token
  | .typeClass => [wordToken names.typeCls]
  | .vector => [.identifier, .scope, .identifier, .less, wordToken names.typeCls, .greater]

def Operand.tokens (operand : Operand) : List Cpp.Token :=
  match operand.counter with
  | none => operand.expr.tokens
  | some counter => operand.expr.tokens ++ [.lbracket, wordToken counter, .rbracket]

def Comparison.functorTokens (comparison : Comparison) : List Cpp.Token :=
  match comparison.oprt with
  | none => [.identifier, .scope, .identifier, .less, .greater, .lparen, .rparen]
  | some _ =>
      [.identifier, .scope, .identifier, .less, wordToken names.typeCls, .greater, .lparen, .rparen]

def Comparison.tokens (comparison : Comparison) : List Cpp.Token :=
  wordToken names.typeCmpMethod :: .lparen :: (comparison.lhs.tokens ++ .comma ::
    (comparison.rhs.tokens ++ .comma :: (comparison.functorTokens names ++ [.rparen])))

/-- A call of a fixture method. -/
def fixtureTokens (method : StringType) (source : ASTIdentifiable) (target : Expr) : List Cpp.Token :=
  wordToken method :: .lparen :: (sourceTokens source.identifiers ++ .comma ::
    (target.tokens ++ [.rparen, .semicolon]))

mutual
def Stmt.tokens : Stmt → List Cpp.Token
  | .blank => []
  | .comment _ => []
  | .declare type name init =>
      type.tokens names ++ wordToken name :: .assign :: (init.tokens names ++ [.semicolon])
  | .setup source target => fixtureTokens names.setupMethod source target
  | .teardown source target => fixtureTokens names.teardownMethod source target
  | .ifNot comparison body =>
      .keywordIf :: .lparen :: .bang :: (comparison.tokens names ++ .rparen :: .lbrace ::
        (Stmt.tokensList body ++ [.rbrace]))
  | .forRange _ _ bound body =>
      .keywordFor :: .lparen :: .identifier :: .identifier :: .assign :: .number :: .comma ::
        .identifier :: .identifier :: .assign :: .number :: .semicolon :: .identifier :: .less ::
        (bound.tokens ++ .dot :: .identifier :: .lparen :: .rparen :: .semicolon :: .increment ::
          .identifier :: .comma :: .increment :: .identifier :: .rparen :: .lbrace ::
          (Stmt.tokensList body ++ [.rbrace]))
  | .setError _ =>
      [.star, .identifier, .assign, .identifier, .scope, .identifier, .lparen, .number, .comma,
        .identifier, .rparen, .semicolon]
  | .returnDefault => [.keywordReturn, wordToken names.typeCls, .lparen, .rparen, .semicolon]
  | .returnValue value => .keywordReturn :: (value.tokens ++ [.semicolon])

def Stmt.tokensList : List Stmt → List Cpp.Token
  | [] => []
  | head :: tail => Stmt.tokens head ++ Stmt.tokensList tail
end

/-! ## Reading the text -/

open Cpp (lex)

theorem lex_name {name : StringType} (word : Matches Cpp.wordPattern name.toList) {next : Char}
    (stop : Cpp.isWordChar next = false) (rest : List Char) :
    lex (name.toList ++ next :: rest) = wordToken name :: lex (next :: rest) :=
  Cpp.lex_word word (by simpa using stop)

/-- A literal word of the synthesizer. -/
theorem lex_literal {word : List Char} {next : Char}
    (isWord : (Cpp.wordPattern.accepts word && !Cpp.isWordChar next) = true) (rest : List Char) :
    lex (word ++ next :: rest) = Cpp.classify word :: lex (next :: rest) := by
  simp only [Bool.and_eq_true, Bool.not_eq_true'] at isWord
  exact Cpp.lex_word ((accepts_iff ..).mp isWord.1) (by simpa using isWord.2)

/-- One that is no keyword. -/
theorem lex_identifier {word : List Char} {next : Char}
    (isWord : (Cpp.wordPattern.accepts word && !Cpp.isWordChar next) = true)
    (identifier : Cpp.classify word = .identifier) (rest : List Char) :
    lex (word ++ next :: rest) = .identifier :: lex (next :: rest) := by
  rw [lex_literal isWord, identifier]

theorem lex_space (rest : List Char) : lex (' ' :: rest) = lex rest := Cpp.lex_blank rfl rest

theorem lex_newline (rest : List Char) : lex ('\n' :: rest) = lex rest := Cpp.lex_blank rfl rest

theorem lex_numeral (n : Nat) {next : Char} (stop : Cpp.isWordChar next = false ∧ next ≠ '.')
    (rest : List Char) :
    lex ((toString n).toList ++ next :: rest) = .number :: lex (next :: rest) := by
  rw [Nat.toString_eq_repr, Nat.toList_repr]
  refine Cpp.lex_number Nat.toDigits_ne_nil (fun c member => ?_) (by simpa using stop)
  have digit := Nat.isDigit_of_mem_toDigits (by decide) (by decide) member
  simpa [Cpp.isDigit, Char.isDigit, Char.le_def] using digit

theorem lex_indentation (indentLvl : Nat) (rest : List Char) :
    lex ((renderIndentation indentLvl).toList ++ rest) = lex rest := by
  induction indentLvl with
  | zero => rfl
  | succ indentLvl ih =>
      have deeper : renderIndentation (indentLvl + 1) = "    " ++ renderIndentation indentLvl := by
        simp [renderIndentation, List.replicate_succ]
      simp only [deeper, String.toList_append, String.reduceToList, List.cons_append, List.nil_append,
        lex_space, ih]

section Before

variable {text : List Char} (word : Matches Cpp.wordPattern text) (rest : List Char)
include word

theorem lex_dot : lex ('.' :: (text ++ rest)) = .dot :: lex (text ++ rest) :=
  Cpp.lex_before_word (by decide) (by decide) (by decide) word rest

theorem lex_star : lex ('*' :: (text ++ rest)) = .star :: lex (text ++ rest) :=
  Cpp.lex_before_word (by decide) (by decide) (by decide) word rest

theorem lex_bang : lex ('!' :: (text ++ rest)) = .bang :: lex (text ++ rest) :=
  Cpp.lex_before_word (by decide) (by decide) (by decide) word rest

theorem lex_less : lex ('<' :: (text ++ rest)) = .less :: lex (text ++ rest) :=
  Cpp.lex_before_word (by decide) (by decide) (by decide) word rest

end Before

/-- The text of an identifiable starts with its root. -/
theorem go_starts (root : ASTIdentifier) (members : List ASTIdentifier) : ∃ behind,
    (synthesizeIdentifiable.go (root :: members)).toList = root.toList ++ behind := by
  cases members with
  | nil => exact ⟨[], (List.append_nil _).symm⟩
  | cons member rest =>
      simp only [synthesizeIdentifiable.go, String.toList_append, List.append_assoc]
      exact ⟨_, rfl⟩

theorem lex_source {source : ASTIdentifiable} (meets : spelled.source source) {next : Char}
    (stop : Cpp.isWordChar next = false) (rest : List Char) :
    lex ((synthesizeIdentifiable source).toList ++ next :: rest) =
      sourceTokens source.identifiers ++ lex (next :: rest) := by
  obtain ⟨identifiers⟩ := source
  obtain ⟨nonempty, words⟩ := meets
  rw [synthesizeIdentifiable]
  simp only at nonempty words ⊢
  induction identifiers with
  | nil => exact absurd rfl nonempty
  | cons root members ih =>
      have isWord := words root List.mem_cons_self
      cases members with
      | nil => exact lex_name isWord stop rest
      | cons member members =>
          have read := ih (List.cons_ne_nil _ _) fun name inRest => words name (List.mem_cons_of_mem _ inRest)
          obtain ⟨behind, starts⟩ := go_starts member members
          have isMember := words member (by simp)
          simp only [synthesizeIdentifiable.go, sourceTokens, String.toList_append, String.reduceToList,
            List.append_assoc, List.cons_append, List.nil_append]
          rw [lex_name isWord rfl, ← read, starts, List.append_assoc, lex_dot isMember]

mutual
theorem lex_expr {expr : Expr} (meets : expr.Meets spelled) {next : Char}
    (stop : Cpp.isWordChar next = false) (rest : List Char) :
    lex (expr.render.toList ++ next :: rest) = expr.tokens ++ lex (next :: rest) := by
  cases expr with
  | ident name => exact lex_name meets stop rest
  | element name index =>
      simp only [Expr.render, Expr.tokens, String.toList_append, String.reduceToList, List.append_assoc,
        List.cons_append, List.nil_append]
      rw [lex_name meets rfl, Cpp.lex_lbracket, lex_numeral _ (by decide), Cpp.lex_rbracket]
  | deref name =>
      simp only [Expr.render, Expr.tokens, String.toList_append, String.reduceToList, List.cons_append,
        List.nil_append]
      rw [lex_star meets, lex_name meets stop]
  | call name arguments =>
      simp only [Expr.render, Expr.tokens, String.toList_append, String.reduceToList, List.append_assoc,
        List.cons_append, List.nil_append]
      rw [lex_name meets.1 rfl, Cpp.lex_lparen, lex_exprs meets.2 rfl, Cpp.lex_rparen]

theorem lex_exprs {exprs : List Expr} (meets : Expr.MeetsList spelled exprs) {next : Char}
    (stop : Cpp.isWordChar next = false) (rest : List Char) :
    lex ((Expr.renderList exprs).toList ++ next :: rest) =
      Expr.tokensList exprs ++ lex (next :: rest) := by
  match exprs with
  | [] => rfl
  | [argument] => exact lex_expr meets.1 stop rest
  | argument :: second :: others =>
      simp only [Expr.renderList, Expr.tokensList, String.toList_append, String.reduceToList,
        List.append_assoc, List.cons_append, List.nil_append]
      rw [lex_expr meets.1 rfl, Cpp.lex_comma, lex_space, lex_exprs meets.2 stop]
end

theorem lex_std {word : List Char} {next : Char}
    (isWord : (Cpp.wordPattern.accepts word && !Cpp.isWordChar next) = true)
    (identifier : Cpp.classify word = .identifier) (rest : List Char) :
    lex ("std".toList ++ ':' :: ':' :: (word ++ next :: rest)) =
      .identifier :: .scope :: .identifier :: lex (next :: rest) := by
  rw [lex_identifier (by decide) (by decide), Cpp.lex_scope, lex_identifier isWord identifier]

theorem lex_greater {next : Char} (alone : next ∉ Cpp.continuations ['>']) (rest : List Char) :
    lex ('>' :: next :: rest) = .greater :: lex (next :: rest) :=
  Cpp.lex_before (by decide) (by decide) alone rest

theorem lex_less_of_notMem {next : Char} (alone : next ∉ Cpp.continuations ['<'])
    (rest : List Char) : lex ('<' :: next :: rest) = .less :: lex (next :: rest) :=
  Cpp.lex_before (by decide) (by decide) alone rest

section Names

variable {names : Names}

theorem lex_declType {type : DeclType} (meets : spelled.callable names.typeCls) (rest : List Char) :
    lex ((type.render names).toList ++ ' ' :: rest) = type.tokens names ++ lex (' ' :: rest) := by
  cases type with
  | typeClass => exact lex_name meets rfl rest
  | vector =>
      have text : "std::vector<".toList = "std".toList ++ ':' :: ':' :: ("vector".toList ++ ['<']) := rfl
      have closed : ">".toList = ['>'] := rfl
      simp only [DeclType.render, DeclType.tokens, String.toList_append, text, closed, List.append_assoc,
        List.cons_append, List.nil_append]
      rw [lex_std (by decide) (by decide), lex_less meets, lex_name meets rfl, lex_greater (by decide)]

theorem lex_init {init : Init} (meets : init.Meets spelled names) (rest : List Char) :
    lex ((init.render names).toList ++ ';' :: rest) = init.tokens names ++ lex (';' :: rest) := by
  cases init with
  | proof source =>
      obtain ⟨method, isSource⟩ := meets
      simp only [Init.render, Init.tokens, String.toList_append, String.reduceToList, List.append_assoc,
        List.cons_append, List.nil_append]
      rw [lex_name method rfl, Cpp.lex_lparen, lex_source isSource rfl, Cpp.lex_rparen]
  | value expr => exact lex_expr meets rfl rest

theorem lex_operand {operand : Operand} (meets : operand.Meets spelled) (rest : List Char) :
    lex (operand.render.toList ++ ',' :: rest) = operand.tokens ++ lex (',' :: rest) := by
  obtain ⟨expr, counter⟩ := operand
  cases counter with
  | none => exact lex_expr meets.1 rfl rest
  | some counter =>
      have isCounter := meets.2 counter rfl
      simp only [Operand.render, Operand.tokens, String.toList_append, String.reduceToList,
        List.append_assoc, List.cons_append, List.nil_append]
      rw [lex_expr meets.1 rfl, Cpp.lex_lbracket, lex_name isCounter rfl, Cpp.lex_rbracket]

theorem lex_functor {comparison : Comparison}
    (meets : comparison.oprt.isSome = true → spelled.callable names.typeCls) (rest : List Char) :
    lex ((comparison.functor names).toList ++ rest) = comparison.functorTokens names ++ lex rest := by
  obtain ⟨lhs, rhs, oprt⟩ := comparison
  cases oprt with
  | none =>
      have text : "std::equal_to<>()".toList =
          "std".toList ++ ':' :: ':' :: ("equal_to".toList ++ ['<', '>', '(', ')']) := rfl
      simp only [Comparison.functor, Comparison.functorTokens, text, List.append_assoc, List.cons_append,
        List.nil_append]
      rw [lex_std (by decide) (by decide), lex_less_of_notMem (by decide), lex_greater (by decide),
        Cpp.lex_lparen, Cpp.lex_rparen]
  | some oprt =>
      have isClass := meets rfl
      obtain ⟨word, text, isWord, identifier⟩ : ∃ word : List Char,
          (equalityFunctor oprt).toList = "std".toList ++ ':' :: ':' :: word ∧
          (Cpp.wordPattern.accepts word && !Cpp.isWordChar '<') = true ∧
          Cpp.classify word = .identifier := by
        cases oprt with
        | operatorEq => exact ⟨"equal_to".toList, rfl, by decide, by decide⟩
        | operatorNeq => exact ⟨"not_equal_to".toList, rfl, by decide, by decide⟩
        | operatorLt => exact ⟨"less".toList, rfl, by decide, by decide⟩
        | operatorLte => exact ⟨"less_equal".toList, rfl, by decide, by decide⟩
      have opened : "<".toList = ['<'] := rfl
      have closed : ">()".toList = ['>', '(', ')'] := rfl
      simp only [Comparison.functor, Comparison.functorTokens, synthesizeEqualityOperator,
        String.toList_append, text, opened, closed, List.append_assoc, List.cons_append, List.nil_append]
      rw [lex_std isWord identifier, lex_less isClass, lex_name isClass rfl, lex_greater (by decide),
        Cpp.lex_lparen, Cpp.lex_rparen]

theorem lex_comparison {comparison : Comparison} (meets : comparison.Meets spelled names)
    (rest : List Char) :
    lex ((comparison.render names).toList ++ rest) = comparison.tokens names ++ lex rest := by
  simp only [Comparison.render, Comparison.tokens, String.toList_append, String.reduceToList,
    List.append_assoc, List.cons_append, List.nil_append]
  rw [lex_name meets.typeCmpMethod rfl, Cpp.lex_lparen, lex_operand meets.lhs, Cpp.lex_comma, lex_space,
    lex_operand meets.rhs, Cpp.lex_comma, lex_space, lex_functor meets.typeCls, Cpp.lex_rparen]

theorem lex_fixture {method : StringType} {source : ASTIdentifiable} {target : Expr}
    (isMethod : spelled.callable method) (isSource : spelled.source source)
    (isTarget : target.Meets spelled) (indentLvl : Nat) (rest : List Char) :
    lex ((renderIndentation indentLvl ++ method ++ "(" ++ synthesizeIdentifiable source ++ ", " ++
      target.render ++ ");\n").toList ++ rest) = fixtureTokens method source target ++ lex rest := by
  simp only [fixtureTokens, String.toList_append, String.reduceToList, List.append_assoc,
    List.cons_append, List.nil_append]
  rw [lex_indentation, lex_name isMethod rfl, Cpp.lex_lparen, lex_source isSource rfl, Cpp.lex_comma,
    lex_space, lex_expr isTarget rfl, Cpp.lex_rparen, Cpp.lex_semicolon, lex_newline]

/-- The word in front of a blank is the keyword `return`. -/
theorem lex_return (rest : List Char) :
    lex ("return ".toList ++ rest) = .keywordReturn :: lex rest := by
  have text : "return ".toList = "return".toList ++ [' '] := rfl
  rw [text, List.append_assoc]
  exact (lex_literal (by decide) rest).trans (congrArg _ (lex_space rest))

theorem lex_closing (indentLvl : Nat) (rest : List Char) :
    lex ((renderIndentation indentLvl).toList ++ ("\x7d\n".toList ++ rest)) = .rbrace :: lex rest := by
  rw [lex_indentation]
  exact (Cpp.lex_rbrace _).trans (congrArg _ (lex_newline rest))

theorem lex_ifHeader {comparison : Comparison} (meets : comparison.Meets spelled names)
    (rest : List Char) :
    lex ("if (!".toList ++ ((comparison.render names).toList ++ (") \x7b\n".toList ++ rest))) =
      .keywordIf :: .lparen :: .bang :: (comparison.tokens names ++ .rparen :: .lbrace :: lex rest) := by
  have text : "if (!".toList = "if".toList ++ [' ', '(', '!'] := rfl
  obtain ⟨behind, starts⟩ : ∃ behind, (comparison.render names).toList =
      names.typeCmpMethod.toList ++ behind := by
    simp only [Comparison.render, String.toList_append, List.append_assoc]
    exact ⟨_, rfl⟩
  have condition := lex_comparison meets
  simp only [starts, List.append_assoc] at condition
  simp only [text, starts, List.append_assoc, List.cons_append, List.nil_append]
  rw [lex_literal (by decide), lex_space, Cpp.lex_lparen, lex_bang meets.typeCmpMethod, condition]
  simp only [String.reduceToList, List.cons_append, List.nil_append, Cpp.lex_rparen, lex_space,
    Cpp.lex_lbrace, lex_newline]
  rfl

/-- The declaration of a counter, in the header of a loop. -/
theorem lex_counter {counter : List Char}
    (isWord : (Cpp.wordPattern.accepts counter && !Cpp.isWordChar ' ') = true)
    (identifier : Cpp.classify counter = .identifier) (index : Nat) {next : Char}
    (stop : Cpp.isWordChar next = false ∧ next ≠ '.') (rest : List Char) :
    lex ("size_t".toList ++ ' ' :: (counter ++ ' ' :: '=' :: ' ' ::
        ((toString index).toList ++ next :: rest))) =
      .identifier :: .identifier :: .assign :: .number :: lex (next :: rest) := by
  rw [lex_identifier (by decide) (by decide), lex_space, lex_identifier isWord identifier, lex_space,
    Cpp.lex_assign, lex_space, lex_numeral _ stop]

theorem lex_forHeader (lhsIdx rhsIdx : Nat) {bound : Expr} (meets : bound.Meets spelled)
    (rest : List Char) :
    lex ("for (size_t i = ".toList ++ ((toString lhsIdx).toList ++ (", size_t j = ".toList ++
        ((toString rhsIdx).toList ++ ("; i < ".toList ++ (bound.render.toList ++
          (".size(); ++i, ++j) \x7b\n".toList ++ rest))))))) =
      .keywordFor :: .lparen :: .identifier :: .identifier :: .assign :: .number :: .comma ::
        .identifier :: .identifier :: .assign :: .number :: .semicolon :: .identifier :: .less ::
        (bound.tokens ++ .dot :: .identifier :: .lparen :: .rparen :: .semicolon :: .increment ::
          .identifier :: .comma :: .increment :: .identifier :: .rparen :: .lbrace :: lex rest) := by
  have first : "for (size_t i = ".toList =
      "for".toList ++ ' ' :: '(' :: ("size_t".toList ++ ' ' :: ("i".toList ++ [' ', '=', ' '])) := rfl
  have second : ", size_t j = ".toList =
      ',' :: ' ' :: ("size_t".toList ++ ' ' :: ("j".toList ++ [' ', '=', ' '])) := rfl
  have third : "; i < ".toList = ';' :: ' ' :: ("i".toList ++ [' ', '<', ' ']) := rfl
  have fourth : ".size(); ++i, ++j) \x7b\n".toList =
      '.' :: ("size".toList ++ '(' :: ')' :: ';' :: ' ' :: '+' :: '+' :: ("i".toList ++
        ',' :: ' ' :: '+' :: '+' :: ("j".toList ++ [')', ' ', '\x7b', '\n']))) := rfl
  have isSize : Matches Cpp.wordPattern "size".toList := (accepts_iff ..).mp (by decide)
  have isI : Cpp.classify "i".toList = .identifier := by decide
  have isJ : Cpp.classify "j".toList = .identifier := by decide
  simp only [first, second, third, fourth, List.append_assoc, List.cons_append, List.nil_append]
  -- The two counters, the condition, and the steps.
  rw [lex_literal (by decide), lex_space, Cpp.lex_lparen, lex_counter (by decide) isI _ (by decide),
    Cpp.lex_comma, lex_space, lex_counter (by decide) isJ _ (by decide), Cpp.lex_semicolon, lex_space]
  rw [lex_identifier (by decide) isI, lex_space, lex_less_of_notMem (by decide), lex_space,
    lex_expr meets rfl, lex_dot isSize, lex_identifier (by decide) (by decide), Cpp.lex_lparen,
    Cpp.lex_rparen, Cpp.lex_semicolon, lex_space]
  rw [Cpp.lex_increment, lex_identifier (by decide) isI, Cpp.lex_comma, lex_space, Cpp.lex_increment,
    lex_identifier (by decide) isJ, Cpp.lex_rparen, lex_space, Cpp.lex_lbrace, lex_newline]
  rfl

theorem lex_setError (value : Nat) (rest : List Char) :
    lex ("*".toList ++ (defaultErrorOutputParameterName.toList ++ (" = std::error_code(".toList ++
        ((toString value).toList ++ (", ".toList ++ (globalErrorCategoryInstanceName.toList ++
          (");\n".toList ++ rest))))))) =
      .star :: .identifier :: .assign :: .identifier :: .scope :: .identifier :: .lparen :: .number ::
        .comma :: .identifier :: .rparen :: .semicolon :: lex rest := by
  have opened : "*".toList = ['*'] := rfl
  have text : " = std::error_code(".toList =
      ' ' :: '=' :: ' ' :: ("std".toList ++ ':' :: ':' :: ("error_code".toList ++ ['('])) := rfl
  have isName : Matches Cpp.wordPattern defaultErrorOutputParameterName.toList :=
    (accepts_iff ..).mp (by decide)
  have isCategory : Matches Cpp.wordPattern globalErrorCategoryInstanceName.toList :=
    (accepts_iff ..).mp (by decide)
  simp only [opened, text, List.append_assoc, List.cons_append, List.nil_append]
  rw [lex_star isName, lex_name isName rfl, lex_space, Cpp.lex_assign, lex_space,
    lex_std (by decide) (by decide), Cpp.lex_lparen]
  simp only [String.reduceToList, List.cons_append, List.nil_append]
  rw [lex_numeral _ (by decide), Cpp.lex_comma, lex_space, lex_name isCategory rfl, Cpp.lex_rparen,
    Cpp.lex_semicolon, lex_newline]
  rfl

mutual
/-- A statement's text is read as its tokens. -/
theorem lex_stmt {stmt : Stmt} (meets : stmt.Meets spelled names) (indentLvl : Nat)
    (rest : List Char) :
    lex ((stmt.render names indentLvl).toList ++ rest) = stmt.tokens names ++ lex rest := by
  cases stmt with
  | blank =>
      rw [Stmt.render, Stmt.tokens]
      exact lex_newline rest
  | comment text =>
      obtain ⟨body, starts, oneLine⟩ := meets
      simp only [Stmt.render, Stmt.tokens, String.toList_append, String.reduceToList, List.append_assoc,
        List.cons_append, List.nil_append, starts]
      rw [lex_indentation, Cpp.lex_comment oneLine]
  | declare type name init =>
      obtain ⟨isClass, isName, isInit⟩ := meets
      simp only [Stmt.render, Stmt.tokens, String.toList_append, String.reduceToList, List.append_assoc,
        List.cons_append, List.nil_append]
      rw [lex_indentation, lex_declType isClass, lex_space, lex_name isName rfl, lex_space,
        Cpp.lex_assign, lex_space, lex_init isInit, Cpp.lex_semicolon, lex_newline]
  | setup source target => exact lex_fixture meets.1 meets.2.1 meets.2.2 indentLvl rest
  | teardown source target => exact lex_fixture meets.1 meets.2.1 meets.2.2 indentLvl rest
  | ifNot comparison body =>
      simp only [Stmt.render, Stmt.tokens, String.toList_append, List.append_assoc]
      rw [lex_indentation, lex_ifHeader meets.1, lex_stmts meets.2, lex_closing]
      simp only [List.cons_append, List.append_assoc, List.nil_append]
  | forRange lhsIdx rhsIdx bound body =>
      obtain ⟨-, isBound, isBody⟩ := meets
      simp only [Stmt.render, Stmt.tokens, String.toList_append, List.append_assoc]
      rw [lex_indentation, lex_forHeader _ _ isBound, lex_stmts isBody, lex_closing]
      simp only [List.cons_append, List.append_assoc, List.nil_append]
  | setError value =>
      simp only [Stmt.render, Stmt.tokens, String.toList_append, List.append_assoc]
      rw [lex_indentation]
      exact lex_setError value rest
  | returnDefault =>
      simp only [Stmt.render, Stmt.tokens, String.toList_append, List.append_assoc]
      rw [lex_indentation, lex_return]
      simp only [String.reduceToList, List.cons_append, List.nil_append]
      rw [lex_name meets rfl, Cpp.lex_lparen, Cpp.lex_rparen, Cpp.lex_semicolon, lex_newline]
  | returnValue value =>
      simp only [Stmt.render, Stmt.tokens, String.toList_append, List.append_assoc]
      rw [lex_indentation, lex_return]
      simp only [String.reduceToList, List.cons_append, List.nil_append, List.append_assoc]
      rw [lex_expr meets rfl, Cpp.lex_semicolon, lex_newline]

theorem lex_stmts {stmts : List Stmt} (meets : Stmt.MeetsList spelled names stmts) (indentLvl : Nat)
    (rest : List Char) :
    lex ((Stmt.renderList names indentLvl stmts).toList ++ rest) =
      Stmt.tokensList names stmts ++ lex rest := by
  cases stmts with
  | nil => rfl
  | cons head tail =>
      simp only [Stmt.renderList, Stmt.tokensList, String.toList_append, List.append_assoc]
      rw [lex_stmt meets.1, lex_stmts meets.2]
end

end Names

end Emitted

end Snowlake
