import Snowlake.Driver.CompilerErrors
import Snowlake.Parse.LexYyRuns
import Snowlake.Parse.ParserResults
import Snowlake.Parse.RoundTrip

/-! # The front end

`ParserDriver::parseFromString` and `parseFromFile` with the scanner and the parser
that flex and bison made, on bytes, and with the errors they register.
-/

namespace Snowlake

open Checking

namespace Position

/-- `operator<<`; no position has a file name. -/
def print (position : Position) : String := toString position.line ++ "." ++ toString position.column

end Position

/-- `operator<<` of `yy::location`. -/
def Location.print (loc : Location) : String :=
  let endCol := if 0 < loc.end.column then loc.end.column - 1 else 0
  loc.begin.print ++
    if loc.begin.line < loc.end.line then "-" ++ toString loc.end.line ++ "." ++ toString endCol
    else if loc.begin.column < endCol then "-" ++ toString endCol
    else ""

namespace FrontEnd

/-- `ParserDriver::Options`, but for the tracing of lexer and parser. -/
structure Options where
  suppressErrorMessages : Bool

/-- What a call of the parser leaves: its result, the driver with its module, and
the errors it registered. -/
structure Result where
  res : ℤ
  driver : ParserDriver
  errors : List CompilerError

/-- `handleErrorWithMessageAndCode`. -/
def registered (msg : String) (code : ParserErrorCode) : CompilerError :=
  ⟨.error, code.code, msg, "parser error", code.categoryMessage⟩

/-- `ParserDriver::error`. -/
def error (opts : Options) (l : Location) (m : String) : List CompilerError :=
  if opts.suppressErrorMessages then []
  else [registered (snprintf 1024 ("Parser error: " ++ m ++ " [" ++ l.print ++ "]")) .invalidSyntax]

/-- What the scanner has from earlier parses. -/
structure Statics where
  lexer : LexerState := {}
  yy_last_accepting_state : ℕ := 0
  yy_last_accepting_cpos : ℕ := 0

variable (opts : Options) (statics : Statics)

/-- `parseFromString`.  The parser asks for the symbols one by one; what it does
not ask for makes no difference to this call. -/
def parseFromString (input : List UInt8) (driver : ParserDriver) : Option Result := do
  let text := LexYy.yy_scan_string input
  let (taken, _) ← LexYy.actions text (text.length + 1)
    ⟨1, 0, statics.yy_last_accepting_state, statics.yy_last_accepting_cpos⟩
  let (symbols, state) := Lexer.symbols taken statics.lexer.step
  let front := symbols.map fun symbol => (symbol.token, symbol.location)
  match ← ParserTab.loop (ParserTab.rounds front 0)
      (ParserTab.Parse.init (ParserTab.symbols front state.loc) driver) with
  | .yyreturn res final =>
      return ⟨res, final.driver, final.errors.flatMap fun (l, m) => error opts l m⟩
  | .yynewstate _ => none

/-- `parseFromFile`, with the content of the file if it opens. -/
def parseFromFile (file : Option (List UInt8)) (driver : ParserDriver) : Option Result :=
  match file with
  | none => some ⟨-1, driver, [registered "Failed to open input file" .badInput]⟩
  | some fileContent => parseFromString opts statics fileContent driver

/-- The characters that are parsed. -/
def characters (input : List UInt8) : List Char := (LexYy.yy_scan_string input).map LexYy.char

/-- One error, unless messages are suppressed. -/
def OneError (errors : List CompilerError) : Prop := ∃ l m, errors = error opts l m

theorem parseFromString_returns (input : List UInt8) (driver : ParserDriver) :
    ∃ errors, parseFromString opts statics input driver =
        some ⟨(driver.parseFromString (characters input) statics.lexer.erange).1,
          (driver.parseFromString (characters input) statics.lexer.erange).2, errors⟩ ∧
      ((driver.parseFromString (characters input) statics.lexer.erange).1 = 0 ∧ errors = [] ∨
        (driver.parseFromString (characters input) statics.lexer.erange).1 = 1 ∧ OneError opts errors) := by
  obtain ⟨last, scanned, -⟩ := LexYy.actions_behind (LexYy.nonzero_of_scan_string input)
    ⟨1, 0, statics.yy_last_accepting_state, statics.yy_last_accepting_cpos⟩ (Nat.zero_le _)
    (Nat.lt_succ_self _)
  have taken : LexYy.actions (LexYy.yy_scan_string input) ((LexYy.yy_scan_string input).length + 1)
      ⟨1, 0, statics.yy_last_accepting_state, statics.yy_last_accepting_cpos⟩ =
        some (MaximalMunch.scan Lexer.locatedRules (characters input), last) := scanned
  have tokens := Lexer.symbols_runActions (MaximalMunch.scan Lexer.locatedRules (characters input))
    statics.lexer.step
  rw [Lexer.scan_locatedRules] at tokens
  have lexed : (Lexer.yylex (characters input) statics.lexer.erange).1 =
      (Lexer.symbols (MaximalMunch.scan Lexer.locatedRules (characters input)) statics.lexer.step).1.map
        (·.token) := congrArg Prod.fst tokens
  generalize made : Lexer.symbols (MaximalMunch.scan Lexer.locatedRules (characters input))
    statics.lexer.step = symbols at lexed
  obtain ⟨symbols, state⟩ := symbols
  obtain ⟨final, ran, isDriver, reported⟩ := ParserTab.loop_returns
    (symbols.map fun symbol => (symbol.token, symbol.location)) state.loc driver 0
  have same : (symbols.map fun symbol => (symbol.token, symbol.location)).map Prod.fst =
      (Lexer.yylex (characters input) statics.lexer.erange).1 := by
    rw [lexed, List.map_map]
    rfl
  rw [same] at ran isDriver reported
  have parsed : parseFromString opts statics input driver =
      some ⟨(driver.parseFromString (characters input) statics.lexer.erange).1, final.driver,
        final.errors.flatMap fun (l, m) => error opts l m⟩ := by
    simp only [parseFromString, taken, made, ran, Option.bind_eq_bind, Option.bind_some]
    rfl
  refine ⟨_, parsed.trans (by rw [isDriver]; rfl), ?_⟩
  rcases reported with ⟨isZero, quiet⟩ | ⟨isOne, location, message, single⟩
  · exact .inl ⟨isZero, by rw [quiet, List.flatMap_nil]⟩
  · exact .inr ⟨isOne, location, message, by rw [single, List.flatMap_singleton]⟩

/-! ## Files -/

/-- The text of a file up to its first zero. -/
theorem characters_eq (input : List UInt8) :
    characters input = (input.map LexYy.char).takeWhile (· != '\x00') := by
  have zero (byte : UInt8) : (LexYy.char byte != '\x00') = decide (byte ≠ 0) := by
    have isZero : LexYy.char byte = '\x00' ↔ byte = 0 := by
      rw [← Char.toNat_inj, LexYy.toNat_char, ← UInt8.toNat_inj]
      rfl
    rw [Bool.eq_iff_iff, bne_iff_ne, decide_eq_true_eq, ne_eq, isZero]
  rw [List.takeWhile_map, characters, LexYy.yy_scan_string]
  congr 2
  funext byte
  exact (zero byte).symm

/-- What flex and bison made parses a file as the grammar says, up to the length that
`yy_scan_string` counts.  A parse that fails registers one error, which
`suppressErrorMessages` suppresses if the file opens. -/
theorem parseFromFile_eq (file : Option (List UInt8)) (driver : ParserDriver) :
    ∃ errors, parseFromFile opts statics file driver =
        some ⟨(driver.parseFromFile (file.map (·.map LexYy.char)) statics.lexer.erange).1,
          (driver.parseFromFile (file.map (·.map LexYy.char)) statics.lexer.erange).2, errors⟩ ∧
      errors.length =
        if (driver.parseFromFile (file.map (·.map LexYy.char)) statics.lexer.erange).1 = 0 ∨
          (opts.suppressErrorMessages = true ∧ file.isSome = true) then 0 else 1 := by
  cases file with
  | none => exact ⟨_, rfl, by simp [ParserDriver.parseFromFile]⟩
  | some content =>
      obtain ⟨errors, ran, reported⟩ := parseFromString_returns opts statics content driver
      rw [characters_eq] at ran reported
      refine ⟨errors, ran, ?_⟩
      rw [Option.map_some, ParserDriver.parseFromFile]
      rcases reported with ⟨isZero, rfl⟩ | ⟨isOne, l, m, rfl⟩
      · rw [if_pos (.inl isZero), List.length_nil]
      · cases suppressed : opts.suppressErrorMessages <;> simp [error, suppressed, isOne]

variable {opts statics} in
/-- How a parse of a file ends. -/
inductive Reads (opts : Options) (statics : Statics) (file : Option (List UInt8)) (driver : ParserDriver) :
    Result → Prop
  | parsed {content module} : file = some content →
      Grammar.Input (Lexer.yylex (characters content) statics.lexer.erange).1 module →
      Reads opts statics file driver ⟨0, driver.setModule module, []⟩
  | failed {result} : (¬ ∃ content module, file = some content ∧
        Grammar.Input (Lexer.yylex (characters content) statics.lexer.erange).1 module) → result.res ≠ 0 →
      (opts.suppressErrorMessages = false → ∃ error, result.errors = [error] ∧ error.severity = .error) →
      Reads opts statics file driver result

theorem OneError.single {errors : List CompilerError} (one : OneError opts errors)
    (spoken : opts.suppressErrorMessages = false) : ∃ error, errors = [error] ∧ error.severity = .error := by
  obtain ⟨l, m, rfl⟩ := one
  rw [error, spoken]
  exact ⟨_, rfl, rfl⟩

theorem parseFromFile_reads (file : Option (List UInt8)) (driver : ParserDriver) :
    ∃ result, parseFromFile opts statics file driver = some result ∧
      Reads opts statics file driver result := by
  cases file with
  | none =>
      refine ⟨_, rfl, .failed ?_ (by decide : (-1 : ℤ) ≠ 0) fun _ => ⟨_, rfl, rfl⟩⟩
      rintro ⟨_, _, ⟨⟩, _⟩
  | some content =>
      obtain ⟨errors, ran, ⟨isZero, rfl⟩ | ⟨isOne, one⟩⟩ :=
        parseFromString_returns opts statics content driver
      · generalize parsed : driver.parseFromString (characters content) statics.lexer.erange = result
          at ran isZero
        obtain ⟨res, final⟩ := result
        obtain rfl : res = 0 := isZero
        obtain ⟨module, isInput, rfl⟩ := Parser.parse_eq_zero_iff.mp parsed
        exact ⟨_, ran, .parsed rfl isInput⟩
      · refine ⟨_, ran, .failed ?_ ?_ one.single⟩
        · rintro ⟨_, module, ⟨⟩, isInput⟩
          have accepted := Parser.parse_of_input isInput driver
          rw [ParserDriver.parseFromString, accepted] at isOne
          cases isOne
        · intro isZero
          cases isOne.symm.trans isZero

theorem input_of_rendering {module : ASTModule} (writable : module.Writable) {content : List UInt8}
    (rendering : Rendering module.tokens (characters content)) :
    Grammar.Input (Lexer.yylex (characters content) false).1 module := by
  rw [Lexer.yylex_rendering rendering (ASTModule.tokens_writable writable)]
  exact ASTModule.derives writable

/-- A file that renders the tokens of a module is read as the module, with no error. -/
theorem parseFromFile_rendering {module : ASTModule} (writable : module.Writable) {content : List UInt8}
    (rendering : Rendering module.tokens (characters content)) (noRange : statics.lexer.erange = false)
    (driver : ParserDriver) :
    parseFromFile opts statics (some content) driver = some ⟨0, ⟨module⟩, []⟩ := by
  obtain ⟨errors, ran, reported⟩ := parseFromString_returns opts statics content driver
  have parsed := Parser.parse_of_input (input_of_rendering writable rendering) driver
  rw [noRange, ParserDriver.parseFromString, parsed] at ran reported
  rcases reported with ⟨-, rfl⟩ | ⟨isOne, -⟩
  · exact ran
  · cases isOne

/-- A text as it is stored, a byte for each character. -/
def stored (text : List Char) : List UInt8 := text.map fun c => UInt8.ofNat c.toNat

theorem characters_stored {text : List Char} (bytes : ∀ c ∈ text, 0 < c.toNat ∧ c.toNat < 256) :
    characters (stored text) = text := by
  induction text with
  | nil => rfl
  | cons c rest ih =>
      obtain ⟨⟨positive, small⟩, later⟩ := List.forall_mem_cons.mp bytes
      have code : (UInt8.ofNat c.toNat).toNat = c.toNat := Nat.mod_eq_of_lt small
      have nonzero : UInt8.ofNat c.toNat ≠ 0 := by
        intro zero
        rw [zero] at code
        exact absurd code.symm (Nat.ne_of_gt positive)
      have same : LexYy.char (UInt8.ofNat c.toNat) = c := by rw [LexYy.char, code, Char.ofNat_toNat]
      rw [stored, List.map_cons, characters, LexYy.yy_scan_string,
        List.takeWhile_cons_of_pos (by simpa using nonzero), List.map_cons, same]
      exact congrArg (c :: ·) (ih later)

theorem bytes_spaced {tokens : List Token}
    (bytes : ∀ token ∈ tokens, ∀ c ∈ token.text, 0 < c.toNat ∧ c.toNat < 256) :
    ∀ c ∈ spaced tokens, 0 < c.toNat ∧ c.toNat < 256 := by
  induction tokens with
  | nil => nofun
  | cons token rest ih =>
      obtain ⟨here, later⟩ := List.forall_mem_cons.mp bytes
      have blank : ∀ c ∈ [' '], 0 < c.toNat ∧ c.toNat < 256 := List.forall_mem_singleton.mpr (by decide)
      exact List.forall_mem_append.mpr ⟨blank, List.forall_mem_append.mpr ⟨here, ih later⟩⟩

/-- The tokens of the inference of the tutorial. -/
abbrev tutorialTokens : List Token := (ASTModule.ofInference staticMethodStaticDispatch).tokens

theorem tutorial_bytes : ∀ c ∈ spaced tutorialTokens, 0 < c.toNat ∧ c.toNat < 256 := by
  have all : tutorialTokens.all (fun token => token.text.all fun c => decide (0 < c.toNat ∧ c.toNat < 256)) =
      true := by
    decide +kernel
  exact bytes_spaced (by simpa only [List.all_eq_true, decide_eq_true_eq] using all)

theorem tutorial_rendering : Rendering tutorialTokens (characters (stored (spaced tutorialTokens))) := by
  rw [characters_stored tutorial_bytes]
  exact rendering_spaced _

/-- The inference of the tutorial, from its bytes. -/
theorem staticMethodStaticDispatch_parseFromFile :
    parseFromFile ⟨false⟩ {} (some (stored (spaced tutorialTokens))) ⟨⟨[]⟩⟩ =
      some ⟨0, ⟨ASTModule.ofInference staticMethodStaticDispatch⟩, []⟩ :=
  parseFromFile_rendering ⟨false⟩ {} (by decide) tutorial_rendering rfl _

end FrontEnd

end Snowlake
