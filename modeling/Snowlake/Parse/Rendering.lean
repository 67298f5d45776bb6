import Mathlib.Data.List.TakeWhile
import Snowlake.Parse.Lexer

/-! # Lexing a rendering

A rendering of a list of tokens is their texts in this order, with blanks or
newlines between them, or with nothing between two where the second does not make
the first longer.  `yylex` reads from it the tokens it renders.
-/

namespace Snowlake

open MaximalMunch Pattern

def Token.text : Token → List Char
  | .keywordGroup => "group".toList
  | .keywordInference => "inference".toList
  | .keywordEnvironment => "environment".toList
  | .keywordArguments => "arguments".toList
  | .keywordGlobals => "globals".toList
  | .keywordWhile => "while".toList
  | .keywordInrange => "inrange".toList
  | .keywordPremises => "premises".toList
  | .keywordProposition => "proposition".toList
  | .integerLiteral value => Nat.toDigits 10 value.toNat
  | .identifier text => text.toList
  | .dot => ['.']
  | .comma => [',']
  | .colon => [':']
  | .semicolon => [';']
  | .lbracket => ['[']
  | .rbracket => [']']
  | .lbrace => ['\x7b']
  | .rbrace => ['\x7d']
  | .lparen => ['(']
  | .rparen => [')']
  | .operatorEq => ['=']
  | .operatorNeq => ['!', '=']
  | .operatorLt => ['<']
  | .operatorLte => ['<', '=']
  | .ellipsis => ['.', '.']

/-- The words that are no identifiers. -/
def keywords : List StringType :=
  ["group", "inference", "environment", "arguments", "globals", "while", "inrange", "premises",
    "proposition"]

/-- A name that can be written: `[_a-zA-Z][_a-zA-Z0-9]*`, and no keyword. -/
structure IsIdentifier (name : StringType) : Prop where
  shape : Matches Lexer.identifierPattern name.toList
  notKeyword : name ∉ keywords

instance (name : StringType) : Decidable (IsIdentifier name) :=
  decidable_of_iff (Lexer.identifierPattern.accepts name.toList = true ∧ name ∉ keywords)
    ⟨fun ⟨shape, notKeyword⟩ => ⟨(accepts_iff ..).mp shape, notKeyword⟩,
      fun isIdentifier => ⟨(accepts_iff ..).mpr isIdentifier.shape, isIdentifier.notKeyword⟩⟩

/-- An integer that `strtol` reads back. -/
def IsIntegerLiteral (value : IntegerType) : Prop := value.toNat < 2 ^ 63

instance (value : IntegerType) : Decidable (IsIntegerLiteral value) :=
  inferInstanceAs (Decidable (_ < _))

/-- A token that the lexer reads from its text. -/
def Token.Writable : Token → Prop
  | .identifier text => IsIdentifier text
  | .integerLiteral value => IsIntegerLiteral value
  | _ => True

def isGap (c : Char) : Bool := Lexer.isBlank c || c == '\n'

/-- A character of identifiers and numbers. -/
def Lexer.isWord (c : Char) : Bool := isIdentifierStart c || isDigit c

/-- Does the longest match stop behind the text of the token, before the character? -/
def Token.endsBefore : Token → Char → Bool
  | .dot, c => c != '.'
  | .operatorLt, c => c != '='
  | .integerLiteral _, c => !Lexer.isDigit c
  | .comma, _ | .colon, _ | .semicolon, _ | .lbracket, _ | .rbracket, _ | .lbrace, _ | .rbrace, _
  | .lparen, _ | .rparen, _ | .operatorEq, _ | .operatorNeq, _ | .operatorLte, _ | .ellipsis, _ => true
  | _, c => !Lexer.isWord c

/-- A text for a list of tokens. -/
inductive Rendering : List Token → List Char → Prop
  | nil {gap} : (∀ c ∈ gap, isGap c = true) → Rendering [] gap
  | cons {gap token tokens rest} : (∀ c ∈ gap, isGap c = true) →
      (∀ c ∈ rest.head?, token.endsBefore c = true) → Rendering tokens rest →
      Rendering (token :: tokens) (gap ++ (token.text ++ rest))

theorem isGap_iff {c : Char} : isGap c = true ↔ c = ' ' ∨ c = '\t' ∨ c = '\n' := by
  simp [isGap, Lexer.isBlank, or_assoc]

theorem Token.endsBefore_gap (token : Token) {c : Char} (gap : isGap c = true) :
    token.endsBefore c = true := by
  obtain rfl | rfl | rfl := isGap_iff.mp gap
  all_goals cases token <;> rfl

theorem Rendering.gap {tokens : List Token} {text : List Char} (rendering : Rendering tokens text) {c : Char}
    (isGap_c : isGap c = true) : Rendering tokens (c :: text) := by
  cases rendering with
  | nil gaps => exact .nil (List.forall_mem_cons.mpr ⟨isGap_c, gaps⟩)
  | cons gaps behind rest => exact .cons (List.forall_mem_cons.mpr ⟨isGap_c, gaps⟩) behind rest

/-- A rendering with one blank before every token. -/
def spaced : List Token → List Char
  | [] => []
  | token :: tokens => [' '] ++ (token.text ++ spaced tokens)

theorem rendering_spaced (tokens : List Token) : Rendering tokens (spaced tokens) := by
  induction tokens with
  | nil => exact .nil nofun
  | cons token tokens ih =>
      refine .cons (List.forall_mem_singleton.mpr rfl) (fun c head => ?_) ih
      cases tokens with
      | nil => cases head
      | cons second tokens =>
          obtain rfl := Option.some.inj head
          exact token.endsBefore_gap rfl

example : Rendering [.identifier "a", .colon, .identifier "b", .semicolon] "a:b;".toList := by
  have gaps : ∀ c ∈ ([] : List Char), isGap c = true := nofun
  refine .cons gaps ?_ (.cons gaps ?_ (.cons gaps ?_ (.cons gaps ?_ (.nil gaps))))
  all_goals
    rintro c ⟨⟩
    try decide

namespace Lexer

/-! ## The rules -/

theorem tokenRules_not_uses_gap {rule : Pattern Char × Action} (member : rule ∈ tokenRules)
    {c : Char} (gap : isGap c = true) : rule.1.uses c = false := by
  have blank : ∀ rule ∈ tokenRules, rule.1.uses ' ' = false := by decide
  have tab : ∀ rule ∈ tokenRules, rule.1.uses '\t' = false := by decide
  have newline : ∀ rule ∈ tokenRules, rule.1.uses '\n' = false := by decide
  obtain rfl | rfl | rfl := isGap_iff.mp gap
  · exact blank rule member
  · exact tab rule member
  · exact newline rule member

/-- The three rules behind those for tokens. -/
theorem mem_rules_iff {rule : Pattern Char × Action} :
    rule ∈ rules ↔ rule ∈ tokenRules ∨ rule = (plus (.one isBlank), .ignore) ∨
      rule = (plus (.one (· == '\n')), .ignore) ∨ rule = (.one (· != '\n'), .ignore) := by
  simp [rules]

theorem longest_one_le {accepts : Char → Bool} {input : List Char} {length : Nat}
    (found : longest (.one accepts) input = some length) : length ≤ 1 := by
  obtain ⟨within, matched⟩ := matches_of_longest found
  obtain ⟨item, -, same⟩ := matches_one_iff.mp matched
  have lengths := congrArg List.length same
  rw [List.length_take, List.length_singleton] at lengths
  omega

/-- The lines that start with `#` in the rules section. -/
def headings : List (List Char) := [
  "#keywords".toList, "#identifiers".toList, "#integer".toList, "#colon".toList,
  "#semicolon".toList, "#equal".toList, "#not_equal".toList, "#less_than".toList,
  "#no_more_than".toList, "#dot".toList, "#comma".toList, "#sqaure_brackets".toList,
  "#curly_braces".toList, "#parentheses".toList, "#ellipsis".toList]

/-- The tokens without a value: each has a rule for its text. -/
def fixedTokens : List Token := [
  .keywordGroup, .keywordInference, .keywordEnvironment, .keywordArguments, .keywordGlobals,
  .keywordWhile, .keywordInrange, .keywordPremises, .keywordProposition, .colon, .semicolon,
  .operatorEq, .operatorNeq, .operatorLt, .operatorLte, .dot, .comma, .lbracket, .rbracket, .lbrace,
  .rbrace, .lparen, .rparen, .ellipsis]

/-- The rules for tokens, by their texts. -/
inductive RuleShape : Pattern Char × Action → Prop
  | heading {text} : text.toList ∈ headings → RuleShape (rule text .ignore)
  | token {text token} : token ∈ fixedTokens → text.toList = token.text → RuleShape (rule text (.make token))
  | identifier : RuleShape (identifierPattern, .makeIdentifier)
  | integer : RuleShape (integerPattern, .makeIntegerLiteral)

theorem ruleShape {rule : Pattern Char × Action} (member : rule ∈ tokenRules) : RuleShape rule := by
  have all : ∀ rule ∈ tokenRules, RuleShape rule := by
    simp only [tokenRules, List.forall_mem_cons]
    exact ⟨.heading (by decide), .token (by decide) rfl, .token (by decide) rfl, .token (by decide) rfl,
      .token (by decide) rfl, .token (by decide) rfl, .token (by decide) rfl, .token (by decide) rfl,
      .token (by decide) rfl, .token (by decide) rfl, .heading (by decide), .identifier,
      .heading (by decide), .integer, .heading (by decide), .token (by decide) rfl,
      .heading (by decide), .token (by decide) rfl, .heading (by decide), .token (by decide) rfl,
      .heading (by decide), .token (by decide) rfl, .heading (by decide), .token (by decide) rfl,
      .heading (by decide), .token (by decide) rfl, .heading (by decide), .token (by decide) rfl,
      .heading (by decide), .token (by decide) rfl, .heading (by decide), .token (by decide) rfl,
      .token (by decide) rfl, .heading (by decide), .token (by decide) rfl, .token (by decide) rfl,
      .heading (by decide), .token (by decide) rfl, .token (by decide) rfl, .heading (by decide),
      .token (by decide) rfl, List.forall_mem_nil _⟩
  exact all rule member

theorem heading_starts {text : List Char} (member : text ∈ headings) : text.head? = some '#' := by
  have all : ∀ text ∈ headings, text.head? = some '#' := by decide
  exact all text member

def IsNumeral (text : List Char) : Prop := text ≠ [] ∧ ∀ c ∈ text, isDigit c = true

instance (text : List Char) : Decidable (IsNumeral text) :=
  decidable_of_iff (text ≠ [] ∧ text.all isDigit = true) (by rw [IsNumeral, List.all_eq_true])

/-- A literal is a numeral, or it starts with two quotes or with a quoted minus sign. -/
theorem numeral_or_quotes {text : List Char} (matched : Matches integerPattern text)
    (nonempty : text ≠ []) :
    IsNumeral text ∨ ['\'', '\''] <+: text ∨ ['\'', '-', '\''] <+: text := by
  obtain ⟨sign, digits, rfl, matchedSign, matchedDigits⟩ := matches_seq_iff.mp matched
  have allDigits : ∀ c ∈ digits, isDigit c = true := by
    rcases matches_alt_iff.mp matchedDigits with zero | run
    · obtain ⟨c, isZero, rfl⟩ := matches_one_iff.mp zero
      obtain rfl : c = '0' := by simpa using isZero
      exact List.forall_mem_singleton.mpr rfl
    · exact run.uses
  rcases matches_alt_iff.mp matchedSign with none | quoted
  · cases none
    exact .inl ⟨nonempty, allDigits⟩
  · rcases matches_alt_iff.mp quoted with quotes | minus
    · right
      left
      obtain ⟨run, last, rfl, matchedRun, matchedLast⟩ := matches_seq_iff.mp quotes
      have runQuotes : ∀ c ∈ run, c = '\'' := by
        intro c member
        simpa [plus, uses] using matchedRun.uses c member
      obtain ⟨c, isQuote, rfl⟩ := matches_one_iff.mp matchedLast
      obtain rfl : c = '\'' := by simpa using isQuote
      obtain ⟨_, later, rfl, first, -⟩ := matches_seq_iff.mp matchedRun
      obtain ⟨c, isQuote, rfl⟩ := matches_one_iff.mp first
      obtain rfl : c = '\'' := by simpa using isQuote
      cases later with
      | nil => exact ⟨digits, rfl⟩
      | cons c later =>
          obtain rfl := runQuotes c (by simp)
          exact ⟨later ++ ['\''] ++ digits, by simp⟩
    · right
      right
      rw [matches_literal_iff.mp minus]
      exact List.prefix_append _ _

/-- What a rule for tokens matches, but for headings and quotes. -/
theorem tokenRule_cases {rule : Pattern Char × Action} (member : rule ∈ tokenRules) {first : Char}
    {text : List Char} (matched : Matches rule.1 (first :: text)) (noHash : first ≠ '#')
    (noQuote : first ≠ '\'') :
    (∃ token ∈ fixedTokens, token.text = first :: text) ∨ Matches identifierPattern (first :: text) ∨
      IsNumeral (first :: text) := by
  cases ruleShape member with
  | heading isHeading =>
      rw [← matches_literal_iff.mp matched] at isHeading
      obtain rfl := Option.some.inj (heading_starts isHeading)
      exact absurd rfl noHash
  | token fixed same => exact .inl ⟨_, fixed, same.symm.trans (matches_literal_iff.mp matched).symm⟩
  | identifier => exact .inr (.inl matched)
  | integer =>
      rcases numeral_or_quotes matched (List.cons_ne_nil _ _) with numeral | ⟨_, same⟩ | ⟨_, same⟩
      · exact .inr (.inr numeral)
      · exact absurd (List.cons.inj same).1.symm noQuote
      · exact absurd (List.cons.inj same).1.symm noQuote

/-! ## Gaps -/

/-- At a gap only the rules without a token match, and only more of the gap. -/
theorem ignore_of_gap {rule : Pattern Char × Action} {first : Char} {text : List Char}
    (member : rule ∈ rules) (gap : isGap first = true) (matched : Matches rule.1 (first :: text)) :
    rule.2 = .ignore ∧ ∀ c ∈ first :: text, isGap c = true := by
  have used := matched.uses
  rcases mem_rules_iff.mp member with ofToken | rfl | rfl | rfl
  · have unused := tokenRules_not_uses_gap ofToken gap
    rw [used first (by simp)] at unused
    cases unused
  · refine ⟨rfl, fun c within => ?_⟩
    have blank : isBlank c = true := by simpa [plus, uses] using used c within
    simp [isGap, blank]
  · refine ⟨rfl, fun c within => ?_⟩
    have newline : c = '\n' := by simpa [plus, uses] using used c within
    simp [isGap, newline]
  · obtain ⟨item, -, same⟩ := matches_one_iff.mp matched
    obtain ⟨rfl, rfl⟩ := List.cons.inj same
    exact ⟨rfl, by simpa using gap⟩

theorem exists_rule_of_gap {c : Char} (gap : isGap c = true) : ∃ rule ∈ rules, Matches rule.1 [c] := by
  have run {accepts : Char → Bool} (accepted : accepts c = true) : Matches (plus (.one accepts)) [c] :=
    .seq (.one accepted) .done
  obtain blank | newline := Bool.or_eq_true _ _ ▸ gap
  · exact ⟨_, mem_rules_iff.mpr (.inr (.inl rfl)), run blank⟩
  · exact ⟨_, mem_rules_iff.mpr (.inr (.inr (.inl rfl))), run newline⟩

/-- At a gap, a part of it is taken and ignored. -/
theorem munch_gap {first : Char} {gap rest : List Char}
    (gaps : ∀ c ∈ first :: gap, isGap c = true) (stops : ∀ c ∈ rest.head?, isGap c = false) :
    ∃ length, munch rules (first :: gap ++ rest) = some (length + 1, .ignore) ∧
      length ≤ gap.length := by
  obtain ⟨rule, member, matched⟩ := exists_rule_of_gap (gaps first (by simp))
  obtain ⟨length, found, positive⟩ := le_longest matched (gap ++ rest)
  obtain ⟨⟨taken, action⟩, munched, longer⟩ := le_munch member found
  obtain ⟨length, rfl⟩ := Nat.exists_eq_succ_of_ne_zero (n := taken) (by
    simp only [List.length_singleton] at positive
    omega)
  obtain ⟨pattern, inRules, foundTaken⟩ := mem_of_munch munched
  obtain ⟨-, matchedTaken⟩ := matches_of_longest foundTaken
  obtain ⟨rfl, allGap⟩ := ignore_of_gap inRules (gaps first (by simp)) matchedTaken
  have bounded : length + 1 ≤ (first :: gap).length :=
    longest_le_of_stop foundTaken fun c head reached => by
      have stopped := stops c head
      rw [allGap c reached] at stopped
      cases stopped
  exact ⟨length, munched, Nat.le_of_succ_le_succ bounded⟩

/-- The kinds and texts of the tokens that `yylex` returns. -/
def lexemes (input : List Char) : List (Action × List Char) :=
  (scan rules input).filter fun taken => taken.1 ≠ .ignore

theorem runActions_filter (taken : List (Action × List Char)) (erange : Bool) :
    runActions (taken.filter fun taken => taken.1 ≠ .ignore) erange = runActions taken erange := by
  induction taken generalizing erange with
  | nil => rfl
  | cons first rest ih =>
      obtain ⟨action, yytext⟩ := first
      cases action with
      | ignore => exact ih erange
      | make | makeIdentifier | makeIntegerLiteral =>
          rw [List.filter_cons_of_pos (by simp)]
          simp only [runActions, ih]

theorem yylex_lexemes (input : List Char) (erange : Bool) :
    yylex input erange = runActions (lexemes input) erange :=
  (runActions_filter _ erange).symm

theorem lexemes_gap {gap rest : List Char} (gaps : ∀ c ∈ gap, isGap c = true)
    (stops : ∀ c ∈ rest.head?, isGap c = false) : lexemes (gap ++ rest) = lexemes rest := by
  induction size : gap.length using Nat.strongRecOn generalizing gap with
  | ind size ih =>
      cases gap with
      | nil => rfl
      | cons first gap =>
          obtain ⟨length, munched, bounded⟩ := munch_gap gaps stops
          have split : first :: gap ++ rest =
              (first :: gap.take length) ++ (gap.drop length ++ rest) := by
            simp only [List.cons_append, ← List.append_assoc, List.take_append_drop]
          have scanned : scan rules (first :: gap ++ rest) =
              (.ignore, first :: gap.take length) :: scan rules (gap.drop length ++ rest) := by
            rw [split] at munched ⊢
            refine scan_append (List.cons_ne_nil _ _) ?_
            rw [munched, List.length_cons, List.length_take, Nat.min_eq_left bounded]
          have skipped : lexemes (first :: gap ++ rest) = lexemes (gap.drop length ++ rest) := by
            rw [lexemes, scanned]
            rfl
          rw [skipped]
          refine ih (gap.drop length).length ?_ (fun c member => gaps c ?_) rfl
          · rw [← size, List.length_cons, List.length_drop]
            omega
          · exact List.mem_cons_of_mem _ (List.mem_of_mem_drop member)

theorem yylex_gap {gap rest : List Char} (gaps : ∀ c ∈ gap, isGap c = true)
    (stops : ∀ c ∈ rest.head?, isGap c = false) (erange : Bool) :
    yylex (gap ++ rest) erange = yylex rest erange := by
  rw [yylex_lexemes, yylex_lexemes, lexemes_gap gaps stops]

/-! ## Tokens -/

/-- The rule that is taken for a text, and what it makes of it. -/
structure Spells (text : List Char) (token : Token) : Prop where
  nonempty : text ≠ []
  solid : ∀ c ∈ text, isGap c = false
  action : ∃ action, (rules.find? fun rule => rule.1.accepts text).map (·.2) = some action ∧
    action.run text false = (some token, false)
  ends : ∀ c, token.endsBefore c = true → ∀ rule ∈ tokenRules, ∀ later,
    ¬ Matches rule.1 (text ++ c :: later)

/-- No rule matches more than the text of a token before a character that ends it. -/
theorem Spells.longest_le {text rest : List Char} {token : Token} (spells : Spells text token)
    (ends : ∀ c ∈ rest.head?, token.endsBefore c = true) {rule : Pattern Char × Action}
    (member : rule ∈ rules) {length : Nat} (found : longest rule.1 (text ++ rest) = some length) :
    length ≤ text.length := by
  obtain ⟨first, later, rfl⟩ := List.exists_cons_of_ne_nil spells.nonempty
  have firstSolid := spells.solid first (by simp)
  simp only [isGap, Bool.or_eq_false_iff] at firstSolid
  rcases mem_rules_iff.mp member with ofToken | rfl | rfl | rfl
  · exact longest_le_of_maximal found fun c head more =>
      spells.ends c (ends c head) rule ofToken more
  · have none : length ≤ ([] : List Char).length := longest_le_of_unused found (by
      rintro c ⟨⟩
      simp [plus, uses, firstSolid.1])
    exact Nat.le_trans none (Nat.zero_le _)
  · have none : length ≤ ([] : List Char).length := longest_le_of_unused found (by
      rintro c ⟨⟩
      simp [plus, uses, firstSolid.2])
    exact Nat.le_trans none (Nat.zero_le _)
  · exact Nat.le_trans (longest_one_le found) (by simp)

theorem Spells.yylex {text rest : List Char} {token : Token} (spells : Spells text token)
    (ends : ∀ c ∈ rest.head?, token.endsBefore c = true) :
    Lexer.yylex (text ++ rest) false =
      (token :: (Lexer.yylex rest false).1, (Lexer.yylex rest false).2) := by
  obtain ⟨_, found, made⟩ := spells.action
  obtain ⟨rule, first, rfl⟩ := Option.map_eq_some_iff.mp found
  have munched : munch rules (text ++ rest) = some (text.length, rule.2) :=
    munch_of_find first fun rule member _ => spells.longest_le ends member
  rw [Lexer.yylex, scan_append spells.nonempty munched, runActions, made]
  rfl

theorem find?_tokenRules {text : List Char} {rule : Pattern Char × Action}
    (found : tokenRules.find? (fun rule => rule.1.accepts text) = some rule) :
    rules.find? (fun rule => rule.1.accepts text) = some rule := by
  rw [rules, List.find?_append, found]
  rfl

/-- A character of a kind to which no gap belongs. -/
theorem not_gap_of_accepts {accepts : Char → Bool} {c : Char} (accepted : accepts c = true)
    (blank : accepts ' ' = false) (tab : accepts '\t' = false) (newline : accepts '\n' = false) :
    isGap c = false := by
  by_contra gap
  rw [Bool.not_eq_false] at gap
  obtain rfl | rfl | rfl := isGap_iff.mp gap
  · exact Bool.noConfusion (blank.symm.trans accepted)
  · exact Bool.noConfusion (tab.symm.trans accepted)
  · exact Bool.noConfusion (newline.symm.trans accepted)

theorem isIdentifierStart_not_gap {c : Char} (start : isIdentifierStart c = true) :
    isGap c = false := not_gap_of_accepts start rfl rfl rfl

theorem isDigit_not_gap {c : Char} (digit : isDigit c = true) : isGap c = false :=
  not_gap_of_accepts digit rfl rfl rfl

theorem identifierPattern_cons {text : List Char} (matched : Matches identifierPattern text) :
    ∃ first rest, text = first :: rest ∧ isIdentifierStart first = true ∧
      ∀ c ∈ text, isGap c = false := by
  obtain ⟨left, right, rfl, matchedFirst, matchedRest⟩ := matches_seq_iff.mp matched
  obtain ⟨first, start, rfl⟩ := matches_one_iff.mp matchedFirst
  refine ⟨first, right, rfl, start, fun c member => ?_⟩
  rcases List.mem_cons.mp member with rfl | inRest
  · exact isIdentifierStart_not_gap start
  · have used : (isIdentifierStart c || isDigit c) = true := matchedRest.uses c inRest
    rcases Bool.or_eq_true _ _ ▸ used with isStart | digit
    · exact isIdentifierStart_not_gap isStart
    · exact isDigit_not_gap digit

/-- A text is not a word with another kind of first character. -/
theorem ne_word {accepts : Char → Bool} {first : Char} (rest : List Char)
    (accepted : accepts first = true) {word : String}
    (starts : word.toList.head?.all accepts = false) : first :: rest ≠ word.toList := by
  intro equal
  rw [← equal, List.head?_cons, Option.all_some, accepted] at starts
  cases starts

theorem find?_identifier {name : StringType} (isIdentifier : IsIdentifier name) :
    tokenRules.find? (fun rule => rule.1.accepts name.toList) =
      some (identifierPattern, .makeIdentifier) := by
  obtain ⟨first, rest, same, start, -⟩ := identifierPattern_cons isIdentifier.shape
  have accepted := (accepts_iff ..).mpr isIdentifier.shape
  have noLine {line : String} (starts : line.toList.head?.all isIdentifierStart = false) :
      name.toList ≠ line.toList := same ▸ ne_word rest start starts
  have noKeyword : ∀ word ∈ keywords, name.toList ≠ word.toList := fun word member equal =>
    isIdentifier.notKeyword (String.toList_inj.mp equal ▸ member)
  simp only [keywords, List.forall_mem_cons] at noKeyword
  obtain ⟨group, inference, environment, arguments, globals, whileWord, inrange, premises,
    proposition, -⟩ := noKeyword
  have keywordsLine := @noLine "#keywords" rfl
  have identifiersLine := @noLine "#identifiers" rfl
  simp only [tokenRules, rule, List.find?_cons, accepts_literal, accepted, keywordsLine,
    identifiersLine, group, inference, environment, arguments, globals, whileWord, inrange, premises,
    proposition, decide_false]

theorem isDigit_iff {c : Char} : isDigit c = true ↔ 48 ≤ c.toNat ∧ c.toNat ≤ 57 := by
  simp only [isDigit, Bool.and_eq_true, decide_eq_true_eq, Char.le_def, UInt32.le_iff_toNat_le]
  rfl

theorem isIdentifierStart_of_isDigit {c : Char} (digit : isDigit c = true) :
    isIdentifierStart c = false := by
  have range := isDigit_iff.mp digit
  have small : ('a' ≤ c) = False ∧ ('A' ≤ c) = False := by
    simp only [Char.le_def, UInt32.le_iff_toNat_le, eq_iff_iff, iff_false, Nat.not_le]
    exact ⟨Nat.lt_of_le_of_lt range.2 (by decide), Nat.lt_of_le_of_lt range.2 (by decide)⟩
  have noUnderscore : c ≠ '_' := by
    rintro rfl
    exact absurd digit (by decide)
  simp [isIdentifierStart, small, noUnderscore]

theorem find?_digits {first : Char} {rest : List Char}
    (digits : ∀ c ∈ first :: rest, isDigit c = true) :
    tokenRules.find? (fun rule => rule.1.accepts (first :: rest)) =
      some (integerPattern, .makeIntegerLiteral) := by
  have accepted : integerPattern.accepts (first :: rest) = true :=
    (accepts_iff ..).mpr (.seq (.altLeft .empty) (.altRight (matches_star_one digits)))
  have firstDigit := digits first (by simp)
  have noIdentifier : identifierPattern.accepts (first :: rest) = false := by
    by_contra accepts
    obtain ⟨_, _, same, start, -⟩ :=
      identifierPattern_cons ((accepts_iff ..).mp (Bool.of_not_eq_false accepts))
    obtain ⟨rfl, -⟩ := List.cons.inj same
    exact absurd start (by simp [isIdentifierStart_of_isDigit firstDigit])
  have noWord {word : String} (starts : word.toList.head?.all isDigit = false) :
      first :: rest ≠ word.toList := ne_word rest firstDigit starts
  simp only [tokenRules, rule, List.find?_cons, accepts_literal, accepted, noIdentifier,
    @noWord "#keywords" rfl, @noWord "group" rfl, @noWord "inference" rfl, @noWord "environment" rfl,
    @noWord "arguments" rfl, @noWord "globals" rfl, @noWord "while" rfl, @noWord "inrange" rfl,
    @noWord "premises" rfl, @noWord "proposition" rfl, @noWord "#identifiers" rfl,
    @noWord "#integer" rfl, decide_false]

/-! ## The ends of tokens -/

theorem isWord_of_identifier {text : List Char} (matched : Matches identifierPattern text) :
    ∀ c ∈ text, isWord c = true := by
  intro c member
  have used := matched.uses c member
  simpa [identifierPattern, uses, isWord] using used

theorem identifier_ends {text later : List Char} {c : Char} (shape : Matches identifierPattern text)
    (notWord : isWord c = false) {rule : Pattern Char × Action} (member : rule ∈ tokenRules) :
    ¬ Matches rule.1 (text ++ c :: later) := by
  intro matched
  obtain ⟨first, rest, rfl, start, -⟩ := identifierPattern_cons shape
  have noHash : first ≠ '#' := by rintro rfl; cases start
  have noQuote : first ≠ '\'' := by rintro rfl; cases start
  rcases tokenRule_cases member matched noHash noQuote with ⟨token, fixed, same⟩ | longer | numeral
  · have letters : ∀ token ∈ fixedTokens, token.text.head?.any isIdentifierStart = true →
        token.text.all isWord = true := by decide
    have isWord_c := List.all_eq_true.mp
      (letters token fixed (by rw [same]; exact start)) c (by rw [same]; simp)
    rw [notWord] at isWord_c
    cases isWord_c
  · have isWord_c := isWord_of_identifier longer c (by simp)
    rw [notWord] at isWord_c
    cases isWord_c
  · have digit := numeral.2 first (by simp)
    rw [isIdentifierStart_of_isDigit digit] at start
    cases start

theorem integer_ends {text later : List Char} {c : Char} (shape : IsNumeral text)
    (notDigit : isDigit c = false) {rule : Pattern Char × Action} (member : rule ∈ tokenRules) :
    ¬ Matches rule.1 (text ++ c :: later) := by
  intro matched
  obtain ⟨nonempty, digits⟩ := shape
  obtain ⟨first, rest, rfl⟩ := List.exists_cons_of_ne_nil nonempty
  have digit := digits first (by simp)
  have noHash : first ≠ '#' := by rintro rfl; cases digit
  have noQuote : first ≠ '\'' := by rintro rfl; cases digit
  rcases tokenRule_cases member matched noHash noQuote with ⟨token, fixed, same⟩ | longer | numeral
  · have noDigit : ∀ token ∈ fixedTokens, token.text.head?.any isDigit = false := by decide
    have starts := noDigit token fixed
    rw [same, List.head?_cons, Option.any_some, digit] at starts
    cases starts
  · obtain ⟨_, _, same, start, -⟩ := identifierPattern_cons longer
    obtain ⟨rfl, -⟩ := List.cons.inj same
    rw [isIdentifierStart_of_isDigit digit] at start
    cases start
  · have isDigit_c := numeral.2 c (by simp)
    rw [notDigit] at isDigit_c
    cases isDigit_c

/-- A letter or digit ends only the tokens that have none. -/
theorem endsBefore_word {token : Token} (fixed : token ∈ fixedTokens) {c : Char} (word : isWord c = true)
    (ends : token.endsBefore c = true) : token.text.any isWord = false := by
  cases token with
  | identifier | integerLiteral => simp [fixedTokens] at fixed
  | keywordGroup | keywordInference | keywordEnvironment | keywordArguments | keywordGlobals
  | keywordWhile | keywordInrange | keywordPremises | keywordProposition =>
      have notWord : (!isWord c) = true := ends
      rw [word] at notWord
      cases notWord
  | _ => decide

theorem fixed_ends {token : Token} (fixed : token ∈ fixedTokens) {c : Char} {later : List Char}
    (ends : token.endsBefore c = true) {rule : Pattern Char × Action} (member : rule ∈ tokenRules) :
    ¬ Matches rule.1 (token.text ++ c :: later) := by
  intro matched
  have starts : ∀ token ∈ fixedTokens, token.text.head?.any
      (fun c => c != '#' && c != '\'' && !isDigit c) = true := by decide
  obtain ⟨first, rest, text⟩ : ∃ first rest, token.text = first :: rest := by
    cases same : token.text with
    | nil =>
        have start := starts token fixed
        rw [same] at start
        cases start
    | cons first rest => exact ⟨first, rest, rfl⟩
  have start := starts token fixed
  rw [text, List.head?_cons, Option.any_some] at start
  simp only [Bool.and_eq_true, bne_iff_ne, Bool.not_eq_true'] at start
  obtain ⟨⟨noHash, noQuote⟩, notDigit⟩ := start
  rw [text] at matched
  rcases tokenRule_cases member matched noHash noQuote with ⟨other, fixedOther, same⟩ | longer | numeral
  · have maximal : ∀ token ∈ fixedTokens, ∀ other ∈ fixedTokens, token.text <+: other.text →
        (other.text.drop token.text.length).head?.all fun c => !token.endsBefore c := by
      decide +kernel
    have longer : other.text = token.text ++ c :: later := text ▸ same
    have refused := maximal token fixed other fixedOther (longer ▸ List.prefix_append ..)
    rw [longer, List.drop_left, List.head?_cons, Option.all_some, ends] at refused
    cases refused
  · have words := isWord_of_identifier longer
    have none := endsBefore_word fixed (words c (by simp)) ends
    rw [text, List.any_cons, words first (by simp)] at none
    cases none
  · have digit := numeral.2 first (by simp)
    rw [notDigit] at digit
    cases digit

theorem spells_identifier {name : StringType} (isIdentifier : IsIdentifier name) :
    Spells name.toList (.identifier name) := by
  obtain ⟨first, rest, same, -, solid⟩ := identifierPattern_cons isIdentifier.shape
  refine ⟨by simp [same], solid, ⟨.makeIdentifier, ?_, by simp [Action.run]⟩, fun c ends rule member _ => ?_⟩
  · rw [find?_tokenRules (find?_identifier isIdentifier)]
    rfl
  · exact identifier_ends isIdentifier.shape (Bool.not_eq_true' _ ▸ ends) member

theorem isSpace_of_isDigit {c : Char} (digit : isDigit c = true) : isSpace c = false := by
  have range := isDigit_iff.mp digit
  have large : (c ≤ '\r') = False := by
    simp only [Char.le_def, UInt32.le_iff_toNat_le, eq_iff_iff, iff_false, Nat.not_le]
    exact Nat.lt_of_lt_of_le (by decide) range.1
  have noBlank : c ≠ ' ' := by
    rintro rfl
    exact absurd digit (by decide)
  simp [isSpace, large, noBlank]

theorem isDigit_of_mem_toDigits {n : Nat} {c : Char} (member : c ∈ Nat.toDigits 10 n) :
    isDigit c = true := by
  have digit := Nat.isDigit_of_mem_toDigits (by decide) (by decide) member
  rw [Char.isDigit, Bool.and_eq_true, decide_eq_true_eq, decide_eq_true_eq] at digit
  exact isDigit_iff.mpr ⟨UInt32.le_iff_toNat_le.mp digit.1, UInt32.le_iff_toNat_le.mp digit.2⟩

theorem splitSign_of_isDigit {first : Char} (digit : isDigit first = true) (rest : List Char) :
    splitSign (first :: rest) = (false, first :: rest) := by
  unfold splitSign
  split
  · obtain ⟨rfl, -⟩ := List.cons.inj ‹_›
    exact absurd digit (by decide)
  · obtain ⟨rfl, -⟩ := List.cons.inj ‹_›
    exact absurd digit (by decide)
  · rfl

/-- `strtol` reads digits up to their end. -/
theorem strtol_digits {text : List Char} (nonempty : text ≠ [])
    (digits : ∀ c ∈ text, isDigit c = true) :
    strtol text = if Nat.ofDigitChars 10 text 0 < 2 ^ 63 then ((Nat.ofDigitChars 10 text 0 : Int), false)
      else (2 ^ 63 - 1, true) := by
  obtain ⟨first, rest, rfl⟩ := List.exists_cons_of_ne_nil nonempty
  have firstDigit := digits first (by simp)
  have unsigned := splitSign_of_isDigit firstDigit rest
  have noSpace : (first :: rest).dropWhile isSpace = first :: rest :=
    List.dropWhile_cons_of_neg (by simp [isSpace_of_isDigit firstDigit])
  have whole : (first :: rest).takeWhile isDigit = first :: rest := List.takeWhile_eq_self_iff.mpr digits
  simp only [strtol, noSpace, unsigned, whole, Bool.false_eq_true, if_false]
  generalize Nat.ofDigitChars 10 (first :: rest) 0 = value
  by_cases small : value < 2 ^ 63
  · rw [if_neg (by omega), if_neg (by omega), if_pos small]
  · rw [if_neg (by omega), if_pos (by omega), if_neg small]

theorem ofInt_of_lt {n : Nat} (small : n < 2 ^ 63) : UInt64.ofInt n = UInt64.ofNat n := by
  have remainder : ((n : Int) % 2 ^ 64).toNat = n := by omega
  rw [UInt64.ofInt, remainder]

theorem spells_integerLiteral {value : IntegerType} (isLiteral : IsIntegerLiteral value) :
    Spells (Nat.toDigits 10 value.toNat) (.integerLiteral value) := by
  have digits : ∀ c ∈ Nat.toDigits 10 value.toNat, isDigit c = true :=
    fun _ => isDigit_of_mem_toDigits
  have nonempty : Nat.toDigits 10 value.toNat ≠ [] := Nat.toDigits_ne_nil
  have bounded : value.toNat < 2 ^ 63 := isLiteral
  have read := strtol_digits nonempty digits
  rw [Nat.ofDigitChars_ten_toDigits, if_pos bounded] at read
  refine ⟨nonempty, fun c member => isDigit_not_gap (digits c member), ⟨.makeIntegerLiteral, ?_, ?_⟩,
    fun c ends rule member _ => ?_⟩
  · generalize Nat.toDigits 10 value.toNat = text at digits nonempty
    obtain ⟨first, rest, rfl⟩ := List.exists_cons_of_ne_nil nonempty
    rw [find?_tokenRules (find?_digits digits)]
    rfl
  · have restored : UInt64.ofInt value.toNat = value := by
      rw [ofInt_of_lt bounded, UInt64.ofNat_toNat]
    simp [Action.run, read, restored]
  · exact integer_ends ⟨nonempty, digits⟩ (Bool.not_eq_true' _ ▸ ends) member

/-- The token that is read at the text of a token is this token. -/
theorem spells_text {token : Token} (writable : token.Writable) : Spells token.text token := by
  have fixed (member : token ∈ fixedTokens) (nonempty : token.text ≠ [])
      (solid : token.text.any isGap = false)
      (found : (rules.find? fun rule => rule.1.accepts token.text).map (·.2) = some (.make token)) :
      Spells token.text token :=
    ⟨nonempty, fun c inText => Bool.eq_false_iff.mpr (List.any_eq_false.mp solid c inText),
      ⟨.make token, found, rfl⟩, fun _ ends _ inRules _ => fixed_ends member ends inRules⟩
  cases token with
  | identifier text => exact spells_identifier writable
  | integerLiteral value => exact spells_integerLiteral writable
  | _ => exact fixed (by decide) (by decide) (by decide) (by decide)

theorem yylex_rendering {tokens : List Token} {text : List Char} (rendering : Rendering tokens text)
    (writable : ∀ token ∈ tokens, token.Writable) : yylex text false = (tokens, false) := by
  induction rendering with
  | @nil gap gaps =>
      rw [← List.append_nil gap, yylex_gap gaps (by simp), yylex, scan]
      rfl
  | @cons gap token tokens rest gaps separated _ ih =>
      have spells := spells_text (writable token (by simp))
      have solid : ∀ c ∈ (token.text ++ rest).head?, isGap c = false := fun c head =>
        spells.solid c (List.mem_of_mem_head? (List.head?_append_of_ne_nil _ spells.nonempty ▸ head))
      rw [yylex_gap gaps solid, spells.yylex separated,
        ih fun other member => writable other (List.mem_cons_of_mem _ member)]

end Lexer

end Snowlake
