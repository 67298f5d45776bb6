import Snowlake.Parse.Parser

/-! # The parser driver

`ParserDriver::parseFromString` and `parseFromFile`.  The options only print, and
the name of the input file only shows in messages, so a driver is its module.
-/

namespace Snowlake

open Parsing

structure ParserDriver where
  module : ASTModule

namespace ParserDriver

def setModule (module : ASTModule) (_ : ParserDriver) : ParserDriver := ⟨module⟩

end ParserDriver

/-- `yy::Parser::parse`.  The production of `input` is the default of its state:
the module is set before a token behind the last group is rejected. -/
def Parser.parse (tokens : List Token) (driver : ParserDriver) : Int × ParserDriver :=
  match inferenceGroupList tokens.length tokens with
  | none => (1, driver)
  | some (groups, []) => (0, driver.setModule ⟨groups⟩)
  | some (groups, _ :: _) => (1, driver.setModule ⟨groups⟩)

/-- `input` is the characters before the terminating zero; `erange` is `errno ==
ERANGE` at the call. -/
def ParserDriver.parseFromString (input : List Char) (erange : Bool) (driver : ParserDriver) :
    Int × ParserDriver :=
  Parser.parse (Lexer.yylex input erange).1 driver

/-- `file` is the content of the input file, if it opens.  The parser is handed
`c_str()`, which ends at the first zero. -/
def ParserDriver.parseFromFile (file : Option (List Char)) (erange : Bool) (driver : ParserDriver) :
    Int × ParserDriver :=
  match file with
  | none => (-1, driver)
  | some content => driver.parseFromString (content.takeWhile (· != '\x00')) erange

namespace Parser

theorem parse_of_input {tokens : List Token} {module : ASTModule}
    (isInput : Grammar.Input tokens module) (driver : ParserDriver) :
    parse tokens driver = (0, driver.setModule module) := by
  obtain ⟨isList⟩ := isInput
  have read := (inferenceGroupList_reads tokens.length).complete isList (Nat.le_refl _)
    (rfl : NotBefore _ [])
  rw [List.append_nil] at read
  rw [parse, read]

/-- The parser accepts the sentences of the grammar, and with the value they have. -/
theorem parse_eq_zero_iff {tokens : List Token} {driver result : ParserDriver} :
    parse tokens driver = (0, result) ↔
      ∃ module, Grammar.Input tokens module ∧ result = driver.setModule module := by
  constructor
  · intro accepted
    rw [parse] at accepted
    split at accepted
    · cases accepted
    · rename_i groups read
      obtain ⟨all, same, isList⟩ := (inferenceGroupList_reads tokens.length).sound read
      rw [List.append_nil] at same
      obtain ⟨-, rfl⟩ := Prod.mk.inj accepted
      exact ⟨⟨groups⟩, .mk (same ▸ isList), rfl⟩
    · cases accepted
  · rintro ⟨module, isInput, rfl⟩
    exact parse_of_input isInput driver

/-- A sentence has one value: the grammar is not ambiguous. -/
theorem input_unique {tokens : List Token} {left right : ASTModule}
    (isLeft : Grammar.Input tokens left) (isRight : Grammar.Input tokens right) : left = right := by
  have sameDriver := (parse_of_input isLeft ⟨left⟩).symm.trans (parse_of_input isRight ⟨left⟩)
  exact congrArg (fun result => result.2.module) sameDriver

/-! ## Failed parses -/

/-- A failing parse does not touch the module. -/
def Keeps (result : Int × ParserDriver) (driver : ParserDriver) : Prop :=
  result.1 ≠ 0 → result.2.module = driver.module

/-- Behind a list of complete groups stands a token that begins no group, and
the groups are not the module the driver already has. -/
def Strays (tokens : List Token) (driver : ParserDriver) : Prop :=
  ∃ listed groups token rest, tokens = listed ++ token :: rest ∧
    Grammar.InferenceGroupList listed groups ∧ token ≠ .keywordGroup ∧ ⟨groups⟩ ≠ driver.module

/-- What is read of a list of groups with such a token behind it is the list. -/
theorem parse_of_stray {listed rest : List Token} {groups : List ASTInferenceGroup} {token : Token}
    (isList : Grammar.InferenceGroupList listed groups) (stray : token ≠ .keywordGroup)
    (driver : ParserDriver) :
    parse (listed ++ token :: rest) driver = (1, driver.setModule ⟨groups⟩) := by
  have stops : NotBefore (· == .keywordGroup) (token :: rest) := by simpa [NotBefore] using stray
  have within : listed.length ≤ (listed ++ token :: rest).length := by
    rw [List.length_append]
    omega
  rw [parse, (inferenceGroupList_reads _).complete isList within stops]

theorem keeps_parse_iff (tokens : List Token) (driver : ParserDriver) :
    Keeps (parse tokens driver) driver ↔ ¬ Strays tokens driver := by
  constructor
  · rintro keeps ⟨listed, groups, token, rest, rfl, isList, stray, changed⟩
    rw [parse_of_stray isList stray] at keeps
    exact changed (keeps Int.one_ne_zero)
  · intro settled
    cases read : inferenceGroupList tokens.length tokens with
    | none =>
        intro _
        rw [parse, read]
    | some answer =>
        obtain ⟨groups, rest⟩ := answer
        cases rest with
        | nil =>
            intro failed
            rw [parse, read] at failed
            exact absurd rfl failed
        | cons token rest =>
            intro _
            have stray : token ≠ .keywordGroup := by
              simpa [NotBefore] using inferenceGroupList_stops read (Nat.le_refl _)
            obtain ⟨listed, split, isList⟩ := (inferenceGroupList_reads tokens.length).sound read
            by_contra changed
            rw [parse, read] at changed
            exact settled ⟨listed, groups, token, rest, split, isList, stray, changed⟩

/-- A failed parse, of a string or of a file, leaves the module unless a token
that begins no group stands behind a list of complete groups. -/
theorem failed_parse_keeps_iff (erange : Bool) (driver : ParserDriver) :
    (∀ input, Keeps (driver.parseFromString input erange) driver ↔
      ¬ Strays (Lexer.yylex input erange).1 driver) ∧
    ∀ file, Keeps (driver.parseFromFile file erange) driver ↔
      ∀ content, file = some content →
        ¬ Strays (Lexer.yylex (content.takeWhile (· != '\x00')) erange).1 driver := by
  constructor
  · intro input
    exact keeps_parse_iff _ driver
  · intro file
    cases file with
    | none => exact ⟨nofun, fun _ _ => rfl⟩
    | some content =>
        refine (keeps_parse_iff _ driver).trans ?_
        constructor
        · rintro settled _ ⟨⟩
          exact settled
        · intro settled
          exact settled content rfl

/-- A driver that has a module is given the text "x": the parse fails and the
module is gone. -/
theorem stray_identifier_clears :
    ¬ Keeps (ParserDriver.parseFromString ['x'] false ⟨⟨[⟨"Group", [], []⟩]⟩⟩) ⟨⟨[⟨"Group", [], []⟩]⟩⟩ := by
  have checked : MaximalMunch.isScan Lexer.rules [(.makeIdentifier, ['x'])] = true := by decide
  have lexed : MaximalMunch.scan Lexer.rules ['x'] = [(.makeIdentifier, ['x'])] :=
    MaximalMunch.scan_of_isScan checked
  have cleared : ParserDriver.parseFromString ['x'] false ⟨⟨[⟨"Group", [], []⟩]⟩⟩ = (1, ⟨⟨[]⟩⟩) := by
    rw [ParserDriver.parseFromString, Lexer.yylex, lexed]
    rfl
  intro keeps
  rw [cleared] at keeps
  cases keeps Int.one_ne_zero

end Parser

end Snowlake
