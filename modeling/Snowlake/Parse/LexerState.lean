import Snowlake.Parse.Lexer

/-! # What the lexer shares between parses

`errno` and the static `loc` of `src/parser/lexer.ll` outlive every call of
`yylex` and every parse; nothing sets them back.  Here the calls of a process
run one after the other from the state the process begins in, each with the
matches its parse asks for.
-/

namespace Snowlake

open MaximalMunch Pattern

/-- `yy::position`.  Its fields are `unsigned`, and they are never set back: this is
for a process that has read fewer than 2^32 - 1 characters. -/
structure Position where
  line : Nat := 1
  column : Nat := 1
  deriving Repr, DecidableEq

def Position.columns (count : Nat) (position : Position) : Position :=
  { position with column := position.column + count }

def Position.lines (count : Nat) (position : Position) : Position :=
  if count ≠ 0 then ⟨position.line + count, 1⟩ else position

/-- `yy::location`. -/
structure Location where
  begin : Position := {}
  «end» : Position := {}
  deriving Repr, DecidableEq

namespace Location

def step (loc : Location) : Location := { loc with begin := loc.end }

def columns (count : Nat) (loc : Location) : Location := { loc with «end» := loc.end.columns count }

def lines (count : Nat) (loc : Location) : Location := { loc with «end» := loc.end.lines count }

end Location

namespace Lexer

/-- What the action of a rule does to `loc`. -/
inductive LocationAction where
  | keep
  | step
  | lines
  deriving Repr, DecidableEq

def LocationAction.run (yyleng : Nat) (loc : Location) : LocationAction → Location
  | .keep => loc
  | .step => loc.step
  | .lines => (loc.lines yyleng).step

/-- The rules, with both parts of their actions. -/
def locatedRules : List (Pattern Char × Action × LocationAction) :=
  tokenRules.map (fun rule => (rule.1, rule.2, .keep)) ++
    [(plus (.one isBlank), .ignore, .step), (plus (.one (· == '\n')), .ignore, .lines),
      (.one (· != '\n'), .ignore, .keep)]

/-- A rule that was taken, and the text it matched. -/
abbrev Match := (Action × LocationAction) × List Char

end Lexer

/-- A fresh process has the default location, and `errno` is not `ERANGE`. -/
structure LexerState where
  erange : Bool := false
  loc : Location := {}
  deriving Repr, DecidableEq

/-- `yy::Parser::symbol_type`: a token with its text and location. -/
structure Symbol where
  token : Token
  yytext : List Char
  location : Location
  deriving Repr, DecidableEq

namespace LexerState

open Lexer

def step (state : LexerState) : LexerState := { state with loc := state.loc.step }

/-- `YY_USER_ACTION` and the action of the rule. -/
def take (taken : Match) (state : LexerState) : Option Token × LexerState :=
  let loc := state.loc.columns taken.2.length
  let (token, erange) := taken.1.1.run taken.2 state.erange
  (token, ⟨erange, taken.1.2.run taken.2.length loc⟩)

end LexerState

namespace Lexer

/-- The symbols the calls of `yylex` return for the matches.  A call begins with
`loc.step()`, the first one has done so. -/
def symbols : List Match → LexerState → List Symbol × LexerState
  | [], state => ([], state)
  | taken :: rest, state =>
      match state.take taken with
      | (none, state) => symbols rest state
      | (some token, state) =>
          let (later, last) := symbols rest state.step
          (⟨token, taken.2, state.loc⟩ :: later, last)

/-- A parse of `input` that ends after `taken` matches. -/
structure Call where
  input : List Char
  taken : Nat

def Call.matches (call : Call) : List Match := (scan locatedRules call.input).take call.taken

def Call.run (call : Call) (state : LexerState) : List Symbol × LexerState :=
  symbols call.matches state.step

end Lexer

open Lexer

/-- The state after the calls. -/
def LexerState.after (state : LexerState) (calls : List Call) : LexerState :=
  calls.foldl (fun state call => (call.run state).2) state

namespace Lexer

/-! ## The tokens -/

theorem locatedRules_drop :
    locatedRules.map (fun rule => (rule.1, rule.2.1)) = rules := by
  simp [locatedRules, rules, Function.comp_def]

theorem scan_locatedRules (input : List Char) :
    (scan locatedRules input).map (fun taken => (taken.1.1, taken.2)) = scan rules input := by
  rw [← scan_map, locatedRules_drop]

/-- The symbols are the tokens of `runActions`, which knows no locations. -/
theorem symbols_runActions (taken : List Match) (state : LexerState) :
    runActions (taken.map fun taken => (taken.1.1, taken.2)) state.erange =
      ((symbols taken state).1.map (·.token), (symbols taken state).2.erange) := by
  induction taken generalizing state with
  | nil => rfl
  | cons first rest ih =>
      rw [List.map_cons, runActions, symbols]
      cases acted : first.1.1.run first.2 state.erange with
      | mk token erange =>
          cases token with
          | none =>
              have later := ih (state.take first).2
              simp only [LexerState.take, acted] at later ⊢
              rw [later]
              rfl
          | some token =>
              have later := ih (state.take first).2.step
              simp only [LexerState.take, LexerState.step, acted] at later ⊢
              rw [later]
              rfl

end Lexer

end Snowlake
