import Mathlib.Algebra.Group.Nat.Defs
import Mathlib.Algebra.Group.Int.Defs
import Snowlake.Ast
import Snowlake.Lib.MaximalMunch

/-! # The lexer

`src/parser/lexer.ll`.  Flex takes the rule with the longest match, among these
the earliest.  The lines that start with `#` are rules as well, for the literal
text of their name and without an action; the quotes in the definition of
`integer` are characters like any other.
-/

namespace Snowlake

open MaximalMunch Pattern

/-- The tokens of `parser.yy`, with the values that semantic actions use. -/
inductive Token where
  | keywordGroup
  | keywordInference
  | keywordEnvironment
  | keywordArguments
  | keywordGlobals
  | keywordWhile
  | keywordInrange
  | keywordPremises
  | keywordProposition
  | integerLiteral (value : IntegerType)
  | identifier (text : StringType)
  | dot
  | comma
  | colon
  | semicolon
  | lbracket
  | rbracket
  | lbrace
  | rbrace
  | lparen
  | rparen
  | operatorEq
  | operatorNeq
  | operatorLt
  | operatorLte
  | ellipsis
  deriving Repr, DecidableEq

namespace Lexer

/-- The action of a rule. -/
inductive Action where
  | ignore
  | make (token : Token)
  | makeIdentifier
  | makeIntegerLiteral
  deriving Repr, DecidableEq

def isIdentifierStart (c : Char) : Bool :=
  c == '_' || ('a' ≤ c && c ≤ 'z') || ('A' ≤ c && c ≤ 'Z')

def isDigit (c : Char) : Bool := '0' ≤ c && c ≤ '9'

def isBlank (c : Char) : Bool := c == ' ' || c == '\t'

def identifierPattern : Pattern Char :=
  .seq (.one isIdentifierStart) (.star (.one fun c => isIdentifierStart c || isDigit c))

/-- `('+'|'-')?([0]|[0-9]*)`, in which `'+'` is a repeated quote and a quote. -/
def integerPattern : Pattern Char :=
  .seq (opt (.alt (.seq (plus (.one (· == '\''))) (.one (· == '\''))) (literal ['\'', '-', '\''])))
    (.alt (.one (· == '0')) (.star (.one isDigit)))

def rule (text : String) (action : Action) : Pattern Char × Action := (literal text.toList, action)

/-- The rules for everything but blanks, newlines and bad characters. -/
def tokenRules : List (Pattern Char × Action) := [
  rule "#keywords" .ignore,
  rule "group" (.make .keywordGroup),
  rule "inference" (.make .keywordInference),
  rule "environment" (.make .keywordEnvironment),
  rule "arguments" (.make .keywordArguments),
  rule "globals" (.make .keywordGlobals),
  rule "while" (.make .keywordWhile),
  rule "inrange" (.make .keywordInrange),
  rule "premises" (.make .keywordPremises),
  rule "proposition" (.make .keywordProposition),
  rule "#identifiers" .ignore,
  (identifierPattern, .makeIdentifier),
  rule "#integer" .ignore,
  (integerPattern, .makeIntegerLiteral),
  rule "#colon" .ignore,
  rule ":" (.make .colon),
  rule "#semicolon" .ignore,
  rule ";" (.make .semicolon),
  rule "#equal" .ignore,
  rule "=" (.make .operatorEq),
  rule "#not_equal" .ignore,
  rule "!=" (.make .operatorNeq),
  rule "#less_than" .ignore,
  rule "<" (.make .operatorLt),
  rule "#no_more_than" .ignore,
  rule "<=" (.make .operatorLte),
  rule "#dot" .ignore,
  rule "." (.make .dot),
  rule "#comma" .ignore,
  rule "," (.make .comma),
  rule "#sqaure_brackets" .ignore,
  rule "[" (.make .lbracket),
  rule "]" (.make .rbracket),
  rule "#curly_braces" .ignore,
  rule "\x7b" (.make .lbrace),
  rule "\x7d" (.make .rbrace),
  rule "#parentheses" .ignore,
  rule "(" (.make .lparen),
  rule ")" (.make .rparen),
  rule "#ellipsis" .ignore,
  rule ".." (.make .ellipsis)]

/-- All rules, in the order of the source. -/
def rules : List (Pattern Char × Action) :=
  tokenRules ++ [(plus (.one isBlank), .ignore), (plus (.one (· == '\n')), .ignore),
    (.one (· != '\n'), .ignore)]

def isSpace (c : Char) : Bool := c == ' ' || ('\t' ≤ c && c ≤ '\r')

/-- Is there a minus sign, and the text behind the sign. -/
def splitSign : List Char → Bool × List Char
  | '-' :: rest => (true, rest)
  | '+' :: rest => (false, rest)
  | text => (false, text)

/-- `strtol` in base 10, and whether it sets `errno` to `ERANGE`. -/
def strtol (text : List Char) : Int × Bool :=
  let (negative, digits) := splitSign (text.dropWhile isSpace)
  let magnitude : Int := Nat.ofDigitChars 10 (digits.takeWhile isDigit) 0
  let n := if negative then -magnitude else magnitude
  if n < -2 ^ 63 then (-2 ^ 63, true)
  else if n > 2 ^ 63 - 1 then (2 ^ 63 - 1, true)
  else (n, false)

/-- The token an action returns, if any.  `erange` is `errno == ERANGE`, which
the lexer never resets. -/
def Action.run (yytext : List Char) (erange : Bool) : Action → Option Token × Bool
  | .ignore => (none, erange)
  | .make token => (some token, erange)
  | .makeIdentifier => (some (.identifier (String.ofList yytext)), erange)
  | .makeIntegerLiteral =>
      let (n, outOfRange) := strtol yytext
      let erange := erange || outOfRange
      (some (.integerLiteral (if erange then 0 else UInt64.ofInt n)), erange)

def runActions : List (Action × List Char) → Bool → List Token × Bool
  | [], erange => ([], erange)
  | (action, yytext) :: rest, erange =>
      let (token, erange) := action.run yytext erange
      let (tokens, erange) := runActions rest erange
      (token.toList ++ tokens, erange)

/-- The tokens that successive calls of `yylex` return, up to the end of the input. -/
def yylex (input : List Char) (erange : Bool) : List Token × Bool :=
  runActions (scan rules input) erange

end Lexer

end Snowlake
