import Snowlake.Lib.MaximalMunch

/-! # Tokens of C++

What the statement grammar sees of a text: white space and line comments are
gone, a word is a keyword or an identifier, and the longest operator is taken.
Literals other than numbers do not occur here.
-/

namespace Cpp

open MaximalMunch Pattern

/-- The terminals of the statement grammar.  The keywords for types are one of
them, and so are the other keywords and operators together. -/
inductive Token where
  | identifier
  | typeKeyword
  | keywordIf
  | keywordFor
  | keywordReturn
  | number
  | scope
  | less
  | greater
  | lparen
  | rparen
  | lbracket
  | rbracket
  | lbrace
  | rbrace
  | comma
  | semicolon
  | assign
  | bang
  | star
  | increment
  | dot
  | other
  deriving Repr, DecidableEq

def isLetter (c : Char) : Bool :=
  c == '_' || ('a' ≤ c && c ≤ 'z') || ('A' ≤ c && c ≤ 'Z')

def isDigit (c : Char) : Bool := '0' ≤ c && c ≤ '9'

def isWordChar (c : Char) : Bool := isLetter c || isDigit c

def isBlank (c : Char) : Bool := c == ' ' || c == '\t' || c == '\n'

def wordPattern : Pattern Char := .seq (.one isLetter) (.star (.one isWordChar))

def numberPattern : Pattern Char :=
  .seq (.one isDigit) (.star (.one fun c => isWordChar c || c == '.'))

def commentPattern : Pattern Char := .seq (literal ['/', '/']) (.star (.one (· != '\n')))

/-- The keywords that are a type by themselves. -/
def typeKeywords : List (List Char) := [
  "auto".toList, "bool".toList, "char".toList, "char16_t".toList, "char32_t".toList,
  "double".toList, "float".toList, "int".toList, "long".toList, "short".toList,
  "signed".toList, "unsigned".toList, "void".toList, "wchar_t".toList]

/-- The keywords that no statement of the grammar has, and the words for operators. -/
def otherKeywords : List (List Char) := [
  "alignas".toList, "alignof".toList, "and".toList, "and_eq".toList, "asm".toList,
  "bitand".toList, "bitor".toList, "break".toList, "case".toList, "catch".toList, "class".toList,
  "compl".toList, "const".toList, "const_cast".toList, "constexpr".toList, "continue".toList,
  "decltype".toList, "default".toList, "delete".toList, "do".toList, "dynamic_cast".toList,
  "else".toList, "enum".toList, "explicit".toList, "export".toList, "extern".toList,
  "false".toList, "friend".toList, "goto".toList, "inline".toList, "mutable".toList,
  "namespace".toList, "new".toList, "noexcept".toList, "not".toList, "not_eq".toList,
  "nullptr".toList, "operator".toList, "or".toList, "or_eq".toList, "private".toList,
  "protected".toList, "public".toList, "register".toList, "reinterpret_cast".toList,
  "sizeof".toList, "static".toList, "static_assert".toList, "static_cast".toList,
  "struct".toList, "switch".toList, "template".toList, "this".toList, "thread_local".toList,
  "throw".toList, "true".toList, "try".toList, "typedef".toList, "typeid".toList,
  "typename".toList, "union".toList, "using".toList, "virtual".toList, "volatile".toList,
  "while".toList, "xor".toList, "xor_eq".toList]

def classify (word : List Char) : Token :=
  if word = "if".toList then .keywordIf
  else if word = "for".toList then .keywordFor
  else if word = "return".toList then .keywordReturn
  else if word ∈ typeKeywords then .typeKeyword
  else if word ∈ otherKeywords then .other
  else .identifier

inductive Action where
  | skip
  | word
  | make (token : Token)
  deriving Repr, DecidableEq

/-- Operators and punctuators, with those that are only here to be the longest. -/
def punctuators : List (List Char × Token) := [
  (['\x7b'], .lbrace), (['\x7d'], .rbrace), (['['], .lbracket), ([']'], .rbracket),
  (['('], .lparen), ([')'], .rparen), ([';'], .semicolon), ([','], .comma),
  ([':', ':'], .scope), (['.'], .dot), (['<'], .less), (['>'], .greater), (['='], .assign),
  (['!'], .bang), (['*'], .star), (['+', '+'], .increment),
  (['#'], .other), (['#', '#'], .other), (['<', ':'], .other), ([':', '>'], .other),
  (['<', '%'], .other), (['%', '>'], .other), (['%', ':'], .other),
  (['%', ':', '%', ':'], .other), ([':'], .other), (['.', '.', '.'], .other), (['?'], .other),
  (['.', '*'], .other), (['+'], .other), (['-'], .other), (['/'], .other), (['%'], .other),
  (['^'], .other), (['&'], .other), (['|'], .other), (['~'], .other), (['+', '='], .other),
  (['-', '='], .other), (['*', '='], .other), (['/', '='], .other), (['%', '='], .other),
  (['^', '='], .other), (['&', '='], .other), (['|', '='], .other), (['<', '<'], .other),
  (['>', '>'], .other), (['>', '>', '='], .other), (['<', '<', '='], .other),
  (['=', '='], .other), (['!', '='], .other), (['<', '='], .other), (['>', '='], .other),
  (['&', '&'], .other), (['|', '|'], .other), (['-', '-'], .other), (['-', '>', '*'], .other),
  (['-', '>'], .other)]

def rules : List (Pattern Char × Action) :=
  [(.one isBlank, .skip), (commentPattern, .skip), (wordPattern, .word),
    (numberPattern, .make .number)] ++
  (punctuators.map fun punctuator => (literal punctuator.1, .make punctuator.2)) ++
  [(.one fun _ => true, .make .other)]

def tokenOf : Action × List Char → Option Token
  | (.skip, _) => none
  | (.word, text) => some (classify text)
  | (.make token, _) => some token

/-- The tokens of a text. -/
def lex (text : List Char) : List Token := (scan rules text).filterMap tokenOf

/-! ## Longest matches -/

theorem mem_rules_iff {rule : Pattern Char × Action} :
    rule ∈ rules ↔ rule = (.one isBlank, .skip) ∨ rule = (commentPattern, .skip) ∨
      rule = (wordPattern, .word) ∨ rule = (numberPattern, .make .number) ∨
      (∃ punctuator ∈ punctuators, rule = (literal punctuator.1, .make punctuator.2)) ∨
      rule = (.one fun _ => true, .make .other) := by
  simp only [rules, List.mem_append, List.mem_cons, List.not_mem_nil, or_false, List.mem_map,
    or_assoc, eq_comm]

theorem matches_commentPattern_iff {text : List Char} :
    Matches commentPattern text ↔ ∃ body, text = '/' :: '/' :: body ∧ '\n' ∉ body := by
  rw [commentPattern, matches_seq_iff]
  constructor
  · intro matched
    obtain ⟨left, body, rfl, opened, closed⟩ := matched
    obtain rfl := matches_literal_iff.mp opened
    refine ⟨body, rfl, fun member => ?_⟩
    simpa [Pattern.uses] using closed.uses _ member
  · intro split
    obtain ⟨body, rfl, oneLine⟩ := split
    refine ⟨['/', '/'], body, rfl, matches_literal_iff.mpr rfl, matches_star_one fun c member => ?_⟩
    exact bne_iff_ne.mpr fun same => oneLine (same ▸ member)

/-- No rule matches more of the input than `text`. -/
def Ends (text rest : List Char) : Prop :=
  ∀ next ∈ rest.head?, ∀ rule ∈ rules, ∀ more, ¬ Matches rule.1 (text ++ next :: more)

/-- The longest match ends behind a text if the next character continues none
of the words, numbers, comments and punctuators that start like the text. -/
theorem ends_cons {first : Char} {text rest : List Char}
    (word : isLetter first = true → ∀ next ∈ rest.head?, isWordChar next = false)
    (number : isDigit first = true → ∀ next ∈ rest.head?, isWordChar next = false ∧ next ≠ '.')
    (comment : first = '/' → text ≠ [] ∧ ∀ next ∈ rest.head?, next = '\n')
    (symbol : ∀ next ∈ rest.head?, ∀ punctuator ∈ punctuators, ∀ more,
      first :: text ++ next :: more ≠ punctuator.1) :
    Ends (first :: text) rest := by
  intro next follows rule member more matched
  rcases mem_rules_iff.mp member with rfl | rfl | rfl | rfl | ⟨punctuator, listed, rfl⟩ | rfl
  · obtain ⟨item, -, single⟩ := matches_one_iff.mp matched
    simp at single
  · obtain ⟨body, split, oneLine⟩ := matches_commentPattern_iff.mp matched
    obtain ⟨rfl, behind⟩ := List.cons.inj split
    obtain ⟨inside, newline⟩ := comment rfl
    cases text with
    | nil => exact inside rfl
    | cons second text =>
        obtain ⟨rfl, rfl⟩ := List.cons.inj behind
        exact oneLine (by simp [newline next follows])
  · obtain ⟨start, later⟩ := matches_run_cons_iff.mp matched
    have continued := later next (by simp)
    rw [word start next follows] at continued
    cases continued
  · obtain ⟨start, later⟩ := matches_run_cons_iff.mp matched
    have continued := later next (by simp)
    obtain ⟨noWord, noDot⟩ := number start next follows
    simp [noWord, noDot] at continued
  · exact symbol next follows punctuator listed more (matches_literal_iff.mp matched)
  · obtain ⟨item, -, single⟩ := matches_one_iff.mp matched
    simp at single

/-! ## Reading a text from its start -/

theorem lex_append {text rest : List Char} {action : Action} (nonempty : text ≠ [])
    (taken : munch rules (text ++ rest) = some (text.length, action)) :
    lex (text ++ rest) = (tokenOf (action, text)).toList ++ lex rest := by
  rw [lex, scan_append nonempty taken, List.filterMap_cons]
  cases tokenOf (action, text) <;> rfl

/-- The action for a text on its own. -/
def actionFor (text : List Char) : Option Action :=
  (rules.find? fun rule => rule.1.accepts text).map (·.2)

theorem lex_of_ends {first : Char} {text rest : List Char} {action : Action}
    (found : actionFor (first :: text) = some action) (ends : Ends (first :: text) rest) :
    lex (first :: text ++ rest) = (tokenOf (action, first :: text)).toList ++ lex rest := by
  obtain ⟨rule, first, rfl⟩ := Option.map_eq_some_iff.mp found
  refine lex_append (List.cons_ne_nil _ _) (munch_of_find first ?_)
  intro other member length reached
  by_contra beyond
  obtain ⟨within, matched⟩ := matches_of_longest reached
  cases rest with
  | nil => exact beyond (by simpa using within)
  | cons next rest =>
      refine ends next rfl other member (rest.take (length - (text.length + 1) - 1)) ?_
      rw [List.take_append, List.take_of_length_le (by omega)] at matched
      simp only [List.length_cons] at beyond matched
      rwa [List.take_cons (by omega)] at matched

theorem head_of_blank {c : Char} (blank : isBlank c = true) : c = ' ' ∨ c = '\t' ∨ c = '\n' := by
  simpa [isBlank, or_assoc] using blank

theorem isBlank_of_isWordChar {c : Char} (word : isWordChar c = true) : isBlank c = false := by
  by_contra blank
  rcases head_of_blank (eq_true_of_ne_false blank) with rfl | rfl | rfl <;> cases word

theorem isWordChar_of_isLetter {c : Char} (letter : isLetter c = true) : isWordChar c = true := by
  rw [isWordChar, letter, Bool.true_or]

theorem isWordChar_of_isDigit {c : Char} (digit : isDigit c = true) : isWordChar c = true := by
  rw [isWordChar, digit, Bool.or_true]

theorem isLetter_of_isDigit {c : Char} (digit : isDigit c = true) : isLetter c = false := by
  simp only [isDigit, Bool.and_eq_true, decide_eq_true_eq, Char.le_def, UInt32.le_iff_toNat_le] at digit
  by_contra letter
  have either := eq_true_of_ne_false letter
  simp only [isLetter, Bool.or_eq_true, Bool.and_eq_true, decide_eq_true_eq, beq_iff_eq,
    Char.le_def, UInt32.le_iff_toNat_le] at either
  rcases either with (rfl | above) | above
  · exact absurd digit.2 (by decide)
  · have low : 'a'.val.toNat = 97 := rfl
    have high : '9'.val.toNat = 57 := rfl
    omega
  · have low : 'A'.val.toNat = 65 := rfl
    have high : '9'.val.toNat = 57 := rfl
    omega

/-- No punctuator starts with a character of a word, with white space or with two slashes. -/
theorem punctuators_start : punctuators.all (fun punctuator =>
    punctuator.1.head?.all (fun c => !isWordChar c && !isBlank c) &&
      !(['/', '/'].isPrefixOf punctuator.1)) = true := by
  decide

theorem ne_punctuator_of_slashes (text : List Char) {punctuator : List Char × Token}
    (listed : punctuator ∈ punctuators) : '/' :: '/' :: text ≠ punctuator.1 := by
  intro same
  have starts := List.all_eq_true.mp punctuators_start punctuator listed
  simp [← same] at starts

theorem ne_punctuator_of_start {first : Char} (start : (isWordChar first || isBlank first) = true)
    (text : List Char) {punctuator : List Char × Token} (listed : punctuator ∈ punctuators) :
    first :: text ≠ punctuator.1 := by
  intro same
  have starts := List.all_eq_true.mp punctuators_start punctuator listed
  simp only [← same, List.head?_cons, Option.all_some, ← Bool.not_or, start, Bool.not_true,
    Bool.false_and] at starts
  cases starts

/-- White space is skipped. -/
theorem lex_blank {c : Char} (blank : isBlank c = true) (rest : List Char) :
    lex (c :: rest) = lex rest := by
  have found : actionFor [c] = some .skip := by
    simp [actionFor, rules, accepts, derivative, nullable, blank]
  have noWord : isWordChar c = false := by
    by_contra word
    rw [isBlank_of_isWordChar (eq_true_of_ne_false word)] at blank
    cases blank
  refine lex_of_ends found (ends_cons ?_ ?_ ?_ ?_)
  · intro letter
    rw [isWordChar_of_isLetter letter] at noWord
    cases noWord
  · intro digit
    rw [isWordChar_of_isDigit digit] at noWord
    cases noWord
  · intro same
    rw [same] at blank
    cases blank
  · intro next _ punctuator listed more
    exact ne_punctuator_of_start (by rw [blank, Bool.or_true]) _ listed

theorem lex_comment {body : List Char} (oneLine : '\n' ∉ body) (rest : List Char) :
    lex ('/' :: '/' :: (body ++ '\n' :: rest)) = lex rest := by
  have accepted : commentPattern.accepts ('/' :: '/' :: body) = true :=
    (accepts_iff ..).mpr (matches_commentPattern_iff.mpr ⟨body, rfl, oneLine⟩)
  have noBlank : (Pattern.one isBlank).accepts ('/' :: '/' :: body) = false := by
    rw [← Bool.not_eq_true, accepts_iff, matches_one_iff]
    intro single
    obtain ⟨item, -, same⟩ := single
    cases same
  have found : actionFor ('/' :: '/' :: body) = some .skip := by
    simp only [actionFor, rules, List.cons_append, List.find?_cons, noBlank, accepted, Option.map_some]
  refine (lex_of_ends found (ends_cons ?_ ?_ ?_ ?_)).trans (lex_blank (c := '\n') rfl rest)
  · nofun
  · nofun
  · exact fun _ => ⟨List.cons_ne_nil _ _, by simp⟩
  · exact fun next _ punctuator listed more => ne_punctuator_of_slashes _ listed

section WordChar

variable {first : Char} (word : isWordChar first = true) (text : List Char)
include word

theorem blank_not_accepts : (Pattern.one isBlank).accepts (first :: text) = false := by
  rw [← Bool.not_eq_true, accepts_iff, matches_one_iff]
  intro single
  obtain ⟨item, blank, same⟩ := single
  obtain ⟨rfl, -⟩ := List.cons.inj same
  rw [isBlank_of_isWordChar word] at blank
  cases blank

theorem commentPattern_not_accepts : commentPattern.accepts (first :: text) = false := by
  rw [← Bool.not_eq_true, accepts_iff, matches_commentPattern_iff]
  intro split
  obtain ⟨body, same, -⟩ := split
  obtain ⟨rfl, -⟩ := List.cons.inj same
  cases word

theorem ne_punctuator {punctuator : List Char × Token} (listed : punctuator ∈ punctuators) :
    first :: text ≠ punctuator.1 :=
  ne_punctuator_of_start (by rw [word, Bool.true_or]) text listed

end WordChar

/-- A word is read up to a character that is no part of a word. -/
theorem lex_word {text : List Char} (word : Matches wordPattern text) {rest : List Char}
    (stops : ∀ next ∈ rest.head?, isWordChar next = false) :
    lex (text ++ rest) = classify text :: lex rest := by
  cases text with
  | nil => exact absurd ((matches_nil_iff _).mp word) (by decide)
  | cons first text =>
      obtain ⟨start, -⟩ := matches_run_cons_iff.mp word
      have isWord := isWordChar_of_isLetter start
      have accepted : wordPattern.accepts (first :: text) = true := (accepts_iff ..).mpr word
      have found : actionFor (first :: text) = some .word := by
        simp only [actionFor, rules, List.cons_append, List.find?_cons, blank_not_accepts isWord,
          commentPattern_not_accepts isWord, accepted, Option.map_some]
      refine lex_of_ends found (ends_cons ?_ ?_ ?_ ?_)
      · exact fun _ => stops
      · intro digit
        rw [isLetter_of_isDigit digit] at start
        cases start
      · intro same
        rw [same] at start
        cases start
      · exact fun next _ punctuator listed more => ne_punctuator isWord _ listed

/-- A numeral is read up to a character that is no part of a number. -/
theorem lex_number {text : List Char} (nonempty : text ≠ []) (digits : ∀ c ∈ text, isDigit c = true)
    {rest : List Char} (stops : ∀ next ∈ rest.head?, isWordChar next = false ∧ next ≠ '.') :
    lex (text ++ rest) = .number :: lex rest := by
  cases text with
  | nil => exact absurd rfl nonempty
  | cons first text =>
      have start : isDigit first = true := digits first List.mem_cons_self
      have isWord := isWordChar_of_isDigit start
      have accepted : numberPattern.accepts (first :: text) = true := by
        refine (accepts_iff ..).mpr (matches_run_cons_iff.mpr ⟨start, fun later member => ?_⟩)
        rw [isWordChar_of_isDigit (digits later (List.mem_cons_of_mem _ member)), Bool.true_or]
      have noWord : wordPattern.accepts (first :: text) = false := by
        rw [← Bool.not_eq_true, accepts_iff]
        intro matched
        have letter := (matches_run_cons_iff.mp matched).1
        rw [isLetter_of_isDigit start] at letter
        cases letter
      have found : actionFor (first :: text) = some (.make .number) := by
        simp only [actionFor, rules, List.cons_append, List.find?_cons, blank_not_accepts isWord,
          commentPattern_not_accepts isWord, noWord, accepted, Option.map_some]
      refine lex_of_ends found (ends_cons ?_ ?_ ?_ ?_)
      · intro letter
        rw [isLetter_of_isDigit start] at letter
        cases letter
      · exact fun _ => stops
      · intro same
        rw [same] at start
        cases start
      · exact fun next _ punctuator listed more => ne_punctuator isWord _ listed

/-- The characters that make a longer punctuator of a text. -/
def continuations (text : List Char) : List Char :=
  punctuators.filterMap fun punctuator =>
    if text.isPrefixOf punctuator.1 then punctuator.1[text.length]? else none

/-- A punctuator is read if the next character does not continue it. -/
theorem lex_symbol {first : Char} {text rest : List Char} {token : Token}
    (found : actionFor (first :: text) = some (.make token))
    (start : isWordChar first = false ∧ first ≠ '/')
    (alone : ∀ next ∈ rest.head?, next ∉ continuations (first :: text)) :
    lex (first :: text ++ rest) = token :: lex rest := by
  refine lex_of_ends found (ends_cons ?_ ?_ ?_ ?_)
  · intro letter
    rw [isWordChar_of_isLetter letter] at start
    cases start.1
  · intro digit
    rw [isWordChar_of_isDigit digit] at start
    cases start.1
  · exact fun same => absurd same start.2
  · intro next follows punctuator listed more same
    refine alone next follows (List.mem_filterMap.mpr ⟨punctuator, listed, ?_⟩)
    have starts : (first :: text).isPrefixOf punctuator.1 = true := by
      rw [← same, List.isPrefixOf_iff_prefix]
      exact List.prefix_append _ _
    rw [if_pos starts, ← same]
    simp

/-! ## The punctuators of statements -/

theorem lex_alone {c : Char} {token : Token} (found : actionFor [c] = some (.make token))
    (start : isWordChar c = false ∧ c ≠ '/') (alone : continuations [c] = []) (rest : List Char) :
    lex (c :: rest) = token :: lex rest :=
  lex_symbol found start (by simp [alone])

theorem lex_lparen (rest : List Char) : lex ('(' :: rest) = .lparen :: lex rest :=
  lex_alone (by decide) (by decide) (by decide) rest

theorem lex_rparen (rest : List Char) : lex (')' :: rest) = .rparen :: lex rest :=
  lex_alone (by decide) (by decide) (by decide) rest

theorem lex_lbracket (rest : List Char) : lex ('[' :: rest) = .lbracket :: lex rest :=
  lex_alone (by decide) (by decide) (by decide) rest

theorem lex_rbracket (rest : List Char) : lex (']' :: rest) = .rbracket :: lex rest :=
  lex_alone (by decide) (by decide) (by decide) rest

theorem lex_lbrace (rest : List Char) : lex ('\x7b' :: rest) = .lbrace :: lex rest :=
  lex_alone (by decide) (by decide) (by decide) rest

theorem lex_rbrace (rest : List Char) : lex ('\x7d' :: rest) = .rbrace :: lex rest :=
  lex_alone (by decide) (by decide) (by decide) rest

theorem lex_comma (rest : List Char) : lex (',' :: rest) = .comma :: lex rest :=
  lex_alone (by decide) (by decide) (by decide) rest

theorem lex_semicolon (rest : List Char) : lex (';' :: rest) = .semicolon :: lex rest :=
  lex_alone (by decide) (by decide) (by decide) rest

theorem lex_scope (rest : List Char) : lex (':' :: ':' :: rest) = .scope :: lex rest := by
  have found : actionFor [':', ':'] = some (.make .scope) := by decide
  have none : continuations [':', ':'] = [] := by decide
  exact lex_symbol found (by decide) (by simp [none])

theorem lex_increment (rest : List Char) : lex ('+' :: '+' :: rest) = .increment :: lex rest := by
  have found : actionFor ['+', '+'] = some (.make .increment) := by decide
  have none : continuations ['+', '+'] = [] := by decide
  exact lex_symbol found (by decide) (by simp [none])

/-- A punctuator that others start with, in front of a character that none goes on with. -/
theorem lex_before {c next : Char} {token : Token} (found : actionFor [c] = some (.make token))
    (start : isWordChar c = false ∧ c ≠ '/') (alone : next ∉ continuations [c]) (rest : List Char) :
    lex (c :: next :: rest) = token :: lex (next :: rest) :=
  lex_symbol found start (by simpa using alone)

theorem lex_assign (rest : List Char) : lex ('=' :: ' ' :: rest) = .assign :: lex (' ' :: rest) :=
  lex_before (by decide) (by decide) (by decide) rest

/-- A punctuator that others start with, in front of a word. -/
theorem lex_before_word {c : Char} {token : Token} (found : actionFor [c] = some (.make token))
    (start : isWordChar c = false ∧ c ≠ '/')
    (alone : (continuations [c]).all fun next => !isWordChar next) {text : List Char}
    (word : Matches wordPattern text) (rest : List Char) :
    lex (c :: (text ++ rest)) = token :: lex (text ++ rest) := by
  cases text with
  | nil => exact absurd ((matches_nil_iff _).mp word) (by decide)
  | cons first text =>
      have isWord := isWordChar_of_isLetter (matches_run_cons_iff.mp word).1
      refine lex_before found start (fun continued => ?_) (text ++ rest)
      have noWord := List.all_eq_true.mp alone first continued
      simp [isWord] at noWord

end Cpp
