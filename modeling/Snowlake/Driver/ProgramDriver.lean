import Snowlake.Driver.CmdlDriver
import Snowlake.Driver.FrontEnd
import Snowlake.Sema.Messages
import Snowlake.Synth.Outcomes

/-! # The program

`ProgramDriver::run`: the command line, the parser, the analyser and the synthesizer
one after the other, up to the first that fails.
-/

namespace Snowlake

open Checking Checking.Report ArgumentParser

namespace ProgramDriver

def EXIT_SUCCESS : ℤ := 0
def EXIT_FAILURE : ℤ := 1

/-- What a run finds: the contents of the files that open for reading, the paths that
open for writing, and the files there. -/
structure Host where
  input : Text → Option (List UInt8)
  opens : String → Bool
  files : String → Option String

/-- What a run leaves.  The text of the help is left out, which lists the options in
the order of their table, and so are the traces of debug mode, which flex and bison
write to `stderr`. -/
structure Outcome where
  exitCode : ℤ
  printedHelp : Bool
  stdout : String
  stderr : String
  files : String → Option String

section Run

variable (cmdlOpts : CmdlDriver.Options)

def inputPath : String := String.ofList cmdlOpts.inputPath

def outputPath : String := String.ofList cmdlOpts.outputPath

def semaOpts : SemanticAnalyzer.Options where
  bailOnFirstError := cmdlOpts.bailOnFirstError
  warningsAsErrors := cmdlOpts.warningsAsErrors
  verbose := cmdlOpts.debugMode

def synthesisOpts : Synthesizer.Options where
  useException := false
  suppressAnnotationComments := cmdlOpts.suppressAnnotationComments
  inputFilepath := inputPath cmdlOpts
  outputPath := outputPath cmdlOpts

def banner : String :=
  if cmdlOpts.verbose ∧ ¬ cmdlOpts.silent then
    "Input:\n" ++ inputPath cmdlOpts ++ "\n\n" ++ "Output path:\n" ++ outputPath cmdlOpts ++ "\n\n"
  else ""

def failureMessage : String :=
  if cmdlOpts.silent then "" else "Error: Failed to synthesize output to: " ++ outputPath cmdlOpts ++ "\n"

/-- A return, with the errors that were registered before. -/
def exit (exitCode : ℤ) (errors : List CompilerError) (stderr : String) (files : String → Option String) :
    Outcome where
  exitCode
  printedHelp := false
  stdout := banner cmdlOpts ++ CompilerErrorPrinter.printed (inputPath cmdlOpts) errors
  stderr
  files

/-- The end of a run, behind the errors of the analyser. -/
def synthesized (log : List CompilerError) :
    Except Fault (Bool × SynthesisContext) → Except Fault Outcome
  | .error fault => .error fault
  | .ok (res, final) =>
      let errors := log ++ final.errors.map (⟨.error, ·⟩)
      if res then .ok (exit cmdlOpts EXIT_SUCCESS errors "" final.files)
      else .ok (exit cmdlOpts EXIT_FAILURE errors (failureMessage cmdlOpts) final.files)

/-- The part of `run` behind the parser. -/
def compile (host : Host) (errors : List CompilerError) (module : ASTModule) : Except Fault Outcome :=
  let analysed := SemanticAnalyzer.run (semaOpts cmdlOpts) module
  if !analysed.value then .ok (exit cmdlOpts EXIT_FAILURE (errors ++ analysed.log) "" host.files)
  else synthesized cmdlOpts (errors ++ analysed.log)
    ((Synthesizer.run (synthesisOpts cmdlOpts) host.opens module).run { files := host.files })

end Run

variable {platform : Platform}

/-- `run`.  The process is fresh, and so are its static variables. -/
def run (argparser : CmdlDriver.Registration platform) (argv : List Text) (host : Host) :
    Option (Except Fault Outcome) :=
  match CmdlDriver.run argparser argv with
  | none => some (.ok ⟨EXIT_FAILURE, true, "", "", host.files⟩)
  | some cmdlOpts => do
      let parsed ← FrontEnd.parseFromFile ⟨false⟩ {} (host.input cmdlOpts.inputPath) ⟨⟨[]⟩⟩
      if parsed.res ≠ 0 then
        return .ok (exit cmdlOpts EXIT_FAILURE parsed.errors "" host.files)
      return compile cmdlOpts host parsed.errors parsed.driver.module

/-! ## How a run ends -/

/-- The input file opens, and its text up to the first zero spells the module. -/
def Parses (host : Host) (cmdlOpts : CmdlDriver.Options) (module : ASTModule) : Prop :=
  ∃ bytes, host.input cmdlOpts.inputPath = some bytes ∧
    Grammar.Input (Lexer.yylex (FrontEnd.characters bytes) false).1 module

variable (platform) in
/-- How a run ends. -/
inductive Ends (argv : List Text) (host : Host) : Except Fault Outcome → Prop
  | usage : (¬ ∃ cmdlOpts, CmdlDriver.Means platform argv cmdlOpts) →
      Ends argv host (.ok ⟨EXIT_FAILURE, true, "", "", host.files⟩)
  | unparsed {cmdlOpts error} : CmdlDriver.Means platform argv cmdlOpts →
      (¬ ∃ module, Parses host cmdlOpts module) → error.severity = .error →
      Ends argv host (.ok (exit cmdlOpts EXIT_FAILURE [error] "" host.files))
  | illFormed {cmdlOpts module} : CmdlDriver.Means platform argv cmdlOpts → Parses host cmdlOpts module →
      ¬ module.WellFormed cmdlOpts.warningsAsErrors →
      Ends argv host (.ok (exit cmdlOpts EXIT_FAILURE
        (SemanticAnalyzer.run (semaOpts cmdlOpts) module).log "" host.files))
  | synthesized {cmdlOpts module result} : CmdlDriver.Means platform argv cmdlOpts →
      Parses host cmdlOpts module → module.WellFormed cmdlOpts.warningsAsErrors →
      Synthesizer.Outcome (synthesisOpts cmdlOpts) host.opens { files := host.files } module result →
      Ends argv host (synthesized cmdlOpts (SemanticAnalyzer.run (semaOpts cmdlOpts) module).log result)

section

variable {argv : List Text} {host : Host} {cmdlOpts : CmdlDriver.Options} {module : ASTModule}

/-- A file that parses is compiled. -/
theorem run_of_parses (argparser : CmdlDriver.Registration platform)
    (meant : CmdlDriver.Means platform argv cmdlOpts) (parses : Parses host cmdlOpts module) :
    run argparser argv host = some (compile cmdlOpts host [] module) := by
  obtain ⟨content, isContent, isInput⟩ := parses
  obtain ⟨parsed, ran, reads⟩ :=
    FrontEnd.parseFromFile_reads ⟨false⟩ {} (host.input cmdlOpts.inputPath) ⟨⟨[]⟩⟩
  cases reads with
  | failed unparsed => exact absurd ⟨content, module, isContent, isInput⟩ unparsed
  | @parsed content' module' isContent' isInput' =>
      obtain rfl := Option.some.inj (isContent.symm.trans isContent')
      obtain rfl := Parser.input_unique isInput isInput'
      simp only [run, CmdlDriver.run_of_means argparser meant, ran, Option.bind_eq_bind, Option.bind_some]
      rfl

/-- What the analyser says of a well-formed module are warnings. -/
theorem analysed_clean (wellFormed : module.WellFormed cmdlOpts.warningsAsErrors) :
    (SemanticAnalyzer.run (semaOpts cmdlOpts) module).value = true ∧
      Clean (SemanticAnalyzer.run (semaOpts cmdlOpts) module).log := by
  have accepted := (SemanticAnalyzer.visitModule_iff (semaOpts cmdlOpts).policy module).mpr wellFormed
  have coherent := SemanticAnalyzer.visitModule_coherent (semaOpts cmdlOpts).policy module
  refine ⟨accepted, fun report member isError => ?_⟩
  have rejected := coherent.value_eq_false_iff.mpr ⟨report, member, isError⟩
  rw [accepted] at rejected
  cases rejected

theorem analysed_error (illFormed : ¬ module.WellFormed cmdlOpts.warningsAsErrors) :
    (SemanticAnalyzer.run (semaOpts cmdlOpts) module).value = false ∧
      ∃ report ∈ (SemanticAnalyzer.run (semaOpts cmdlOpts) module).log, report.severity = .error := by
  have rejected : (SemanticAnalyzer.run (semaOpts cmdlOpts) module).value = false := by
    refine Bool.eq_false_iff.mpr fun accepted => illFormed ?_
    exact (SemanticAnalyzer.visitModule_iff (semaOpts cmdlOpts).policy module).mp accepted
  have coherent := SemanticAnalyzer.visitModule_coherent (semaOpts cmdlOpts).policy module
  exact ⟨rejected, coherent.value_eq_false_iff.mp rejected⟩

theorem compile_of_wellFormed (host : Host) (wellFormed : module.WellFormed cmdlOpts.warningsAsErrors) :
    compile cmdlOpts host [] module =
      synthesized cmdlOpts (SemanticAnalyzer.run (semaOpts cmdlOpts) module).log
        ((Synthesizer.run (synthesisOpts cmdlOpts) host.opens module).run { files := host.files }) := by
  simp [compile, (analysed_clean wellFormed).1]

theorem compile_of_not_wellFormed (host : Host) (illFormed : ¬ module.WellFormed cmdlOpts.warningsAsErrors) :
    compile cmdlOpts host [] module =
      .ok (exit cmdlOpts EXIT_FAILURE (SemanticAnalyzer.run (semaOpts cmdlOpts) module).log "" host.files) := by
  simp [compile, (analysed_error illFormed).1]

end

theorem run_ends (argparser : CmdlDriver.Registration platform) (argv : List Text) (host : Host) :
    ∃ ended, run argparser argv host = some ended ∧ Ends platform argv host ended := by
  cases commanded : CmdlDriver.run argparser argv with
  | none =>
      refine ⟨_, by rw [run, commanded], .usage ?_⟩
      rintro ⟨cmdlOpts, meant⟩
      rw [CmdlDriver.run_of_means argparser meant] at commanded
      cases commanded
  | some cmdlOpts =>
      have meant := CmdlDriver.means_of_run argparser commanded
      by_cases parses : ∃ module, Parses host cmdlOpts module
      case pos =>
        obtain ⟨module, parses⟩ := parses
        refine ⟨_, run_of_parses argparser meant parses, ?_⟩
        by_cases wellFormed : module.WellFormed cmdlOpts.warningsAsErrors
        · rw [compile_of_wellFormed host wellFormed]
          exact .synthesized meant parses wellFormed
            (Synthesizer.run_outcome _ _ wellFormed (SynthesisContext.idle_initial 1 host.files))
        · rw [compile_of_not_wellFormed host wellFormed]
          exact .illFormed meant parses wellFormed
      case neg =>
        obtain ⟨parsed, ran, reads⟩ :=
          FrontEnd.parseFromFile_reads ⟨false⟩ {} (host.input cmdlOpts.inputPath) ⟨⟨[]⟩⟩
        cases reads with
        | parsed isContent isInput => exact absurd ⟨_, _, isContent, isInput⟩ parses
        | failed unparsed failed spoken =>
            obtain ⟨error, single, isError⟩ := spoken rfl
            refine ⟨.ok (exit cmdlOpts EXIT_FAILURE [error] "" host.files), ?_, .unparsed meant parses isError⟩
            simp only [run, commanded, ran, Option.bind_eq_bind, Option.bind_some, if_pos failed, single]
            rfl

/-! ## What the runs have in common -/

section Runs

variable {argv : List Text} {host : Host} {cmdlOpts : CmdlDriver.Options} {module : ASTModule}

theorem synthesized_completed {log : List CompilerError} {final : SynthesisContext}
    (noErrors : final.errors = []) :
    synthesized cmdlOpts log (.ok (true, final)) = .ok (exit cmdlOpts EXIT_SUCCESS log "" final.files) := by
  simp [synthesized, noErrors]

variable (cmdlOpts) in
/-- The text has the line of an error. -/
def ShowsError (stdout : String) : Prop :=
  ∃ before error after, error.severity = .error ∧
    stdout = before ++ CompilerErrorPrinter.line (inputPath cmdlOpts) error ++ after

theorem showsError_of_mem {errors : List CompilerError} {error : CompilerError} (member : error ∈ errors)
    (isError : error.severity = .error) :
    ShowsError cmdlOpts (banner cmdlOpts ++ CompilerErrorPrinter.printed (inputPath cmdlOpts) errors) := by
  obtain ⟨before, after, isText⟩ := CompilerErrorPrinter.line_in_printed (inputPath cmdlOpts) member
  refine ⟨banner cmdlOpts ++ before, error, after, isError, ?_⟩
  rw [isText]
  simp only [String.append_assoc]

theorem synthesized_eq_ok {log : List CompilerError} {result : Except Fault (Bool × SynthesisContext)}
    {outcome : Outcome} (isOutcome : synthesized cmdlOpts log result = .ok outcome) :
    ∃ res final, result = .ok (res, final) ∧ outcome.printedHelp = false ∧ outcome.files = final.files ∧
      outcome.stdout = banner cmdlOpts ++ CompilerErrorPrinter.printed (inputPath cmdlOpts)
        (log ++ final.errors.map (⟨.error, ·⟩)) ∧
      outcome.exitCode = (if res then EXIT_SUCCESS else EXIT_FAILURE) ∧
      outcome.stderr = (if res then "" else failureMessage cmdlOpts) := by
  match result with
  | .error _ => cases isOutcome
  | .ok (true, final) | .ok (false, final) =>
      cases isOutcome
      exact ⟨_, _, rfl, rfl, rfl, rfl, rfl, rfl⟩

end Runs

/-! ## Success -/

/-- What a run needs beyond its command line. -/
structure Compiles (host : Host) (cmdlOpts : CmdlDriver.Options) (module : ASTModule) : Prop where
  parses : Parses host cmdlOpts module
  wellFormed : module.WellFormed cmdlOpts.warningsAsErrors
  errorCodeFilesOpen : Synthesizer.ErrorCodeFilesOpen (synthesisOpts cmdlOpts) host.opens
  completes : ∀ group ∈ module.inferenceGroups,
    Synthesizer.Completes (synthesisOpts cmdlOpts) host.opens group

/-- What a run over a file that compiles leaves. -/
def success (host : Host) (cmdlOpts : CmdlDriver.Options) (module : ASTModule) : Outcome :=
  exit cmdlOpts EXIT_SUCCESS (SemanticAnalyzer.run (semaOpts cmdlOpts) module).log ""
    (Writes.writeAll host.files (Synthesizer.writes (synthesisOpts cmdlOpts) module.inferenceGroups 0))

variable (argparser : CmdlDriver.Registration platform) (argv : List Text) (host : Host)

section

variable {argv host} {cmdlOpts : CmdlDriver.Options} {module : ASTModule}

/-- Behind an accepted module a run ends as the synthesizer does. -/
theorem run_of_wellFormed (meant : CmdlDriver.Means platform argv cmdlOpts)
    (parses : Parses host cmdlOpts module) (wellFormed : module.WellFormed cmdlOpts.warningsAsErrors) :
    ∃ result, Synthesizer.Outcome (synthesisOpts cmdlOpts) host.opens { files := host.files } module result ∧
      run argparser argv host =
        some (synthesized cmdlOpts (SemanticAnalyzer.run (semaOpts cmdlOpts) module).log result) := by
  refine ⟨_, Synthesizer.run_outcome _ _ wellFormed (SynthesisContext.idle_initial 1 host.files), ?_⟩
  rw [run_of_parses argparser meant parses, compile_of_wellFormed host wellFormed]

theorem run_of_compiles (meant : CmdlDriver.Means platform argv cmdlOpts)
    (compiles : Compiles host cmdlOpts module) :
    run argparser argv host = some (.ok (success host cmdlOpts module)) := by
  obtain ⟨result, ends, ran⟩ := run_of_wellFormed argparser meant compiles.parses compiles.wellFormed
  rw [ran]
  cases ends with
  | unwritten closed => exact absurd compiles.errorCodeFilesOpen closed
  | completed _ _ sameErrors files =>
      rw [synthesized_completed sameErrors, files]
      rfl
  | givenUp _ split _ closed =>
      exact absurd (compiles.completes _ (by simp [split])).1 closed
  | thrown _ first =>
      obtain ⟨before, after, split, -, incomplete⟩ := first
      exact absurd (compiles.completes _ (by simp [split])) incomplete

theorem compiles_of_success {outcome : Outcome} (ran : run argparser argv host = some (.ok outcome))
    (succeeded : outcome.exitCode = EXIT_SUCCESS) :
    ∃ cmdlOpts module, CmdlDriver.Means platform argv cmdlOpts ∧ Compiles host cmdlOpts module ∧
      outcome = success host cmdlOpts module := by
  obtain ⟨ended, ranTo, ends⟩ := run_ends argparser argv host
  have isOutcome : ended = .ok outcome := Option.some.inj (ranTo.symm.trans ran)
  have failed : EXIT_FAILURE ≠ EXIT_SUCCESS := by decide
  cases ends with
  | usage | unparsed | illFormed =>
      cases isOutcome
      exact absurd succeeded failed
  | @synthesized cmdlOpts module result meant parses wellFormed ends =>
      cases ends with
      | unwritten | givenUp =>
          cases isOutcome
          exact absurd succeeded failed
      | @completed final open_ all sameErrors files =>
          refine ⟨cmdlOpts, module, meant, ⟨parses, wellFormed, open_, all⟩, ?_⟩
          rw [synthesized_completed sameErrors, files] at isOutcome
          exact (Except.ok.inj isOutcome).symm
      | thrown => cases isOutcome

end

/-- A run succeeds if and only if the command line means options under which the
input file compiles; then it has printed the warnings, and made the writes of every
group, the later ones over the earlier. -/
theorem run_succeeds_iff (outcome : Outcome) :
    (run argparser argv host = some (.ok outcome) ∧ outcome.exitCode = EXIT_SUCCESS) ↔
      ∃ cmdlOpts module, CmdlDriver.Means platform argv cmdlOpts ∧ Compiles host cmdlOpts module ∧
        outcome = exit cmdlOpts EXIT_SUCCESS (SemanticAnalyzer.run (semaOpts cmdlOpts) module).log ""
          (Writes.writeAll host.files
            (Synthesizer.writes (synthesisOpts cmdlOpts) module.inferenceGroups 0)) := by
  constructor
  · rintro ⟨ran, succeeded⟩
    exact compiles_of_success argparser ran succeeded
  · rintro ⟨cmdlOpts, module, meant, compiles, rfl⟩
    exact ⟨run_of_compiles argparser meant compiles, rfl⟩

section

variable {argv host}

/-- A run that succeeded has the same outcome when it is repeated with its input file
on the files it left. -/
theorem run_again {outcome : Outcome} (ran : run argparser argv host = some (.ok outcome))
    (succeeded : outcome.exitCode = EXIT_SUCCESS) :
    run argparser argv { host with files := outcome.files } = some (.ok outcome) := by
  obtain ⟨cmdlOpts, module, meant, compiles, rfl⟩ := compiles_of_success argparser ran succeeded
  have again : Compiles { host with files := (success host cmdlOpts module).files } cmdlOpts module :=
    ⟨compiles.parses, compiles.wellFormed, compiles.errorCodeFilesOpen, compiles.completes⟩
  have sameFiles := Writes.writeAll_again
    (Synthesizer.writes (synthesisOpts cmdlOpts) module.inferenceGroups 0) host.files
  have same : success { host with files := (success host cmdlOpts module).files } cmdlOpts module =
      success host cmdlOpts module := congrArg (exit cmdlOpts EXIT_SUCCESS _ "") sameFiles
  rw [run_of_compiles argparser meant again, same]

end

/-! ### The tutorial -/

section Tutorial

open CmdlDriver FrontEnd

def tutorialItems : List Item := [
  .valued "output".toList "-o".toList "out".toList, .positional "tutorial.sl".toList]

def tutorialArgv : List Text := ["snowlake".toList, "-o".toList, "out".toList, "tutorial.sl".toList]

theorem tutorial_satisfies : Satisfies (parameters integerPlatform) 1 tutorialArgv tutorialItems := by
  refine ⟨⟨_, _, rfl, ?_, rfl⟩, ?_, Nat.le_refl _⟩
  · have option : Item.OfParameters (parameters integerPlatform)
        (.valued "output".toList "-o".toList "out".toList) :=
      ⟨_, List.mem_cons_self, rfl, .inr rfl, by decide⟩
    have argument : "tutorial.sl".toList.head? ≠ some '-' := by decide
    exact List.forall_mem_cons.mpr ⟨option, List.forall_mem_singleton.mpr argument⟩
  · intro parameter member isRequired
    obtain rfl | others := List.mem_cons.mp member
    · exact ⟨_, List.mem_cons_self, rfl⟩
    · simp only [List.mem_cons, List.not_mem_nil, or_false] at others
      rcases others with rfl | rfl | rfl | rfl | rfl | rfl <;> cases isRequired

theorem tutorial_means : Means integerPlatform tutorialArgv (ofItems tutorialItems) :=
  ⟨tutorialItems, tutorial_satisfies, rfl⟩

/-- A machine on which the tutorial is in its file, and every file opens for writing. -/
def tutorialHost (content : List UInt8) : Host where
  input path := if path = "tutorial.sl".toList then some content else none
  opens _ := true
  files _ := none

section

variable {content : List UInt8} (rendering : Rendering tutorialTokens (characters content))
include rendering

theorem tutorial_parses {cmdlOpts : CmdlDriver.Options} (isInput : cmdlOpts.inputPath = "tutorial.sl".toList) :
    Parses (tutorialHost content) cmdlOpts (.ofInference staticMethodStaticDispatch) := by
  refine ⟨content, ?_, input_of_rendering (by decide) rendering⟩
  rw [isInput]
  rfl

theorem tutorial_compiles {cmdlOpts : CmdlDriver.Options} (isInput : cmdlOpts.inputPath = "tutorial.sl".toList) :
    Compiles (tutorialHost content) cmdlOpts (.ofInference staticMethodStaticDispatch) where
  parses := tutorial_parses rendering isInput
  wellFormed := SemanticAnalyzer.wellFormed_of_strict
    ((SemanticAnalyzer.visitModule_iff ⟨false, true⟩ _).mp (by decide)) _
  errorCodeFilesOpen := ⟨rfl, rfl⟩
  completes group member := by
    obtain rfl := List.mem_singleton.mp member
    exact ⟨⟨rfl, rfl⟩, fun _ => by decide⟩

end

/-- The tutorial, compiled twice. -/
theorem tutorial_run_again :
    run (default : Registration integerPlatform) tutorialArgv { tutorialHost (stored (spaced tutorialTokens)) with
        files := (success (tutorialHost (stored (spaced tutorialTokens))) (ofItems tutorialItems)
          (.ofInference staticMethodStaticDispatch)).files } =
      some (.ok (success (tutorialHost (stored (spaced tutorialTokens))) (ofItems tutorialItems)
        (.ofInference staticMethodStaticDispatch))) :=
  run_again default (run_of_compiles default tutorial_means (tutorial_compiles tutorial_rendering rfl)) rfl

end Tutorial

/-! ## Failure -/

/-- However it ends, a run touches no file but the output files of a module that
was accepted. -/
theorem run_keeps_files :
    ∃ ended, run argparser argv host = some ended ∧ ∀ outcome, ended = .ok outcome →
      ∀ path, outcome.files path ≠ host.files path →
        ∃ cmdlOpts module, CmdlDriver.Means platform argv cmdlOpts ∧ Parses host cmdlOpts module ∧
          module.WellFormed cmdlOpts.warningsAsErrors ∧
          path ∈ Synthesizer.outputFilepaths (synthesisOpts cmdlOpts) module := by
  obtain ⟨ended, ran, ends⟩ := run_ends argparser argv host
  refine ⟨ended, ran, fun outcome isOutcome path changed => ?_⟩
  cases ends with
  | usage | unparsed | illFormed =>
      cases isOutcome
      exact absurd rfl changed
  | @synthesized cmdlOpts module result meant parses wellFormed ends =>
      refine ⟨cmdlOpts, module, meant, parses, wellFormed, by_contra fun outside => changed ?_⟩
      obtain ⟨res, final, rfl, -, sameFiles, -⟩ := synthesized_eq_ok isOutcome
      rw [sameFiles]
      exact ends.keeps _ _ outside

/-- The groups are written one after the other and as a whole: whenever a run
returns, every file is what it is after a run over the first groups alone, but for
the header file of the next, which may be empty instead. -/
theorem run_writes_whole_groups :
    ∃ ended, run argparser argv host = some ended ∧ ∀ outcome, ended = .ok outcome →
      outcome.files = host.files ∨
        ∃ cmdlOpts module, CmdlDriver.Means platform argv cmdlOpts ∧ Parses host cmdlOpts module ∧
          module.WellFormed cmdlOpts.warningsAsErrors ∧
          (¬ Synthesizer.ErrorCodeFilesOpen (synthesisOpts cmdlOpts) host.opens ∧
              (∀ path, path ≠ Synthesizer.outputFilepath (synthesisOpts cmdlOpts)
                  Synthesizer.errorCodeHeaderFilename → outcome.files path = host.files path) ∨
            ∃ written rest, module.inferenceGroups = written ++ rest ∧
              (∀ group ∈ written, Synthesizer.Completes (synthesisOpts cmdlOpts) host.opens group) ∧
              (outcome.exitCode = EXIT_SUCCESS ↔ rest = []) ∧
              ∀ path, outcome.files path = Writes.writeAll host.files
                  (Synthesizer.writes (synthesisOpts cmdlOpts) written 0) path ∨
                ∃ group ∈ rest.head?, path = Synthesizer.headerFilepath (synthesisOpts cmdlOpts) group ∧
                  outcome.files path = some "") := by
  obtain ⟨ended, ran, ends⟩ := run_ends argparser argv host
  refine ⟨ended, ran, fun outcome isOutcome => ?_⟩
  cases ends with
  | usage | unparsed | illFormed =>
      cases isOutcome
      exact .inl rfl
  | @synthesized cmdlOpts module result meant parses wellFormed ends =>
      obtain ⟨res, final, rfl, -, sameFiles, -, exitCode, -⟩ := synthesized_eq_ok isOutcome
      refine .inr ⟨cmdlOpts, module, meant, parses, wellFormed, ?_⟩
      rw [exitCode, sameFiles]
      cases ends with
      | unwritten closed _ files => exact .inl ⟨closed, files⟩
      | completed _ all _ files =>
          refine .inr ⟨module.inferenceGroups, [], (List.append_nil _).symm, all, by simp, fun path => ?_⟩
          exact .inl (congrFun files path)
      | @givenUp before group after _ _ _ split all _ _ files =>
          refine .inr ⟨before, group :: after, split, all, by simp [EXIT_SUCCESS, EXIT_FAILURE], ?_⟩
          exact fun path => (files path).imp_right fun emptied => ⟨group, rfl, emptied⟩

/-- A run that fails prints the help, writes to `stderr` or shows an error, unless
it is silent and an error code file does not open. -/
theorem run_tells_failure :
    ∃ ended, run argparser argv host = some ended ∧ ∀ outcome, ended = .ok outcome →
      outcome.exitCode ≠ EXIT_SUCCESS → outcome.printedHelp = true ∨
        ∃ cmdlOpts, CmdlDriver.Means platform argv cmdlOpts ∧
          (outcome.stderr ≠ "" ∨ ShowsError cmdlOpts outcome.stdout ∨
            cmdlOpts.silent = true ∧ ∃ module, Parses host cmdlOpts module ∧
              module.WellFormed cmdlOpts.warningsAsErrors ∧
              ¬ Synthesizer.ErrorCodeFilesOpen (synthesisOpts cmdlOpts) host.opens ∧
              outcome.stdout = CompilerErrorPrinter.printed (inputPath cmdlOpts)
                (SemanticAnalyzer.run (semaOpts cmdlOpts) module).log) := by
  obtain ⟨ended, ran, ends⟩ := run_ends argparser argv host
  refine ⟨ended, ran, fun outcome isOutcome failed => ?_⟩
  cases ends with
  | usage =>
      cases isOutcome
      exact .inl rfl
  | unparsed meant unparsed isError =>
      cases isOutcome
      exact .inr ⟨_, meant, .inr (.inl (showsError_of_mem List.mem_cons_self isError))⟩
  | illFormed meant parses illFormed =>
      cases isOutcome
      obtain ⟨-, report, member, isError⟩ := analysed_error illFormed
      exact .inr ⟨_, meant, .inr (.inl (showsError_of_mem member isError))⟩
  | @synthesized cmdlOpts module result meant parses wellFormed ends =>
      obtain ⟨res, final, rfl, -, -, isStdout, exitCode, isStderr⟩ := synthesized_eq_ok isOutcome
      refine .inr ⟨cmdlOpts, meant, ?_⟩
      cases ends with
      | completed => exact absurd exitCode failed
      | unwritten closed sameErrors =>
          by_cases silent : cmdlOpts.silent = true
          · refine .inr (.inr ⟨silent, module, parses, wellFormed, closed, ?_⟩)
            rw [isStdout, sameErrors]
            simp [banner, silent]
          · refine .inl ?_
            simp [isStderr, failureMessage, silent, String.append_eq_empty_iff]
      | givenUp _ _ _ _ single =>
          rw [isStdout, single, List.nil_append, List.map_singleton]
          exact .inr (.inl (showsError_of_mem (List.mem_append_right _ (List.mem_singleton_self _)) rfl))

section

variable {argv host} {input : Text → Option (List UInt8)}

/-- Runs on input files that spell the same module have the same outcome, however the
files are laid out and whatever is behind a zero. -/
theorem run_of_same_modules (same : ∀ cmdlOpts, CmdlDriver.Means platform argv cmdlOpts →
    ∃ module, Parses host cmdlOpts module ∧ Parses { host with input := input } cmdlOpts module) :
    run argparser argv { host with input := input } = run argparser argv host := by
  cases commanded : CmdlDriver.run argparser argv with
  | none => rw [run, run, commanded]
  | some cmdlOpts =>
      have meant := CmdlDriver.means_of_run argparser commanded
      obtain ⟨module, parses, others⟩ := same cmdlOpts meant
      rw [run_of_parses argparser meant parses, run_of_parses argparser meant others]
      rfl

end

/-- The tutorial with and without a newline in front. -/
theorem tutorial_run_of_same_modules :
    run (default : CmdlDriver.Registration integerPlatform) tutorialArgv
        (tutorialHost (FrontEnd.stored ('\n' :: spaced FrontEnd.tutorialTokens))) =
      run (default : CmdlDriver.Registration integerPlatform) tutorialArgv
        (tutorialHost (FrontEnd.stored (spaced FrontEnd.tutorialTokens))) := by
  have bytes : ∀ c ∈ '\n' :: spaced FrontEnd.tutorialTokens, 0 < c.toNat ∧ c.toNat < 256 :=
    List.forall_mem_cons.mpr ⟨by decide, FrontEnd.tutorial_bytes⟩
  have shifted : Rendering FrontEnd.tutorialTokens
      (FrontEnd.characters (FrontEnd.stored ('\n' :: spaced FrontEnd.tutorialTokens))) := by
    rw [FrontEnd.characters_stored bytes]
    exact (rendering_spaced _).gap rfl
  change run default tutorialArgv { tutorialHost (FrontEnd.stored (spaced FrontEnd.tutorialTokens)) with
    input := (tutorialHost (FrontEnd.stored ('\n' :: spaced FrontEnd.tutorialTokens))).input } = _
  refine run_of_same_modules default fun cmdlOpts meant => ⟨.ofInference staticMethodStaticDispatch, ?_⟩
  have ran := CmdlDriver.run_of_means default tutorial_means
  rw [CmdlDriver.run_of_means default meant] at ran
  obtain rfl := Option.some.inj ran
  exact ⟨tutorial_parses FrontEnd.tutorial_rendering rfl, tutorial_parses shifted rfl⟩

/-! ## Messages -/

/-- The errors of a run are printed after its banner.  There are none if it
succeeds, and with `--bail` there is at most one, the last of the reports. -/
theorem run_prints :
    ∃ ended, run argparser argv host = some ended ∧ ∀ outcome, ended = .ok outcome →
      outcome.printedHelp = true ∨
        ∃ cmdlOpts errors, CmdlDriver.Means platform argv cmdlOpts ∧
          outcome.stdout = banner cmdlOpts ++ CompilerErrorPrinter.printed (inputPath cmdlOpts) errors ∧
          (outcome.exitCode = EXIT_SUCCESS → Clean errors) ∧
          (cmdlOpts.bailOnFirstError = true → Clean errors ∨ EndsWithError errors) := by
  obtain ⟨ended, ran, ends⟩ := run_ends argparser argv host
  refine ⟨ended, ran, fun outcome isOutcome => ?_⟩
  have failed : EXIT_FAILURE ≠ EXIT_SUCCESS := by decide
  cases ends with
  | usage =>
      cases isOutcome
      exact .inl rfl
  | unparsed meant unparsed isError =>
      cases isOutcome
      exact .inr ⟨_, _, meant, rfl, fun succeeded => absurd succeeded failed,
        fun _ => .inr ⟨[], _, rfl, isError, clean_nil⟩⟩
  | @illFormed cmdlOpts module meant parses illFormed =>
      cases isOutcome
      have coherent := SemanticAnalyzer.visitModule_coherent (semaOpts cmdlOpts).policy module
      exact .inr ⟨_, _, meant, rfl, fun succeeded => absurd succeeded failed, coherent.endsWithError⟩
  | @synthesized cmdlOpts module result meant parses wellFormed ends =>
      obtain ⟨res, final, rfl, -, -, isStdout, exitCode, -⟩ := synthesized_eq_ok isOutcome
      have clean := (analysed_clean wellFormed).2
      refine .inr ⟨cmdlOpts, _, meant, isStdout, ?_⟩
      cases ends with
      | unwritten _ sameErrors | completed _ _ sameErrors =>
          rw [sameErrors, List.map_nil, List.append_nil]
          exact ⟨fun _ => clean, fun _ => .inl clean⟩
      | givenUp _ _ _ _ single =>
          refine ⟨fun succeeded => absurd (exitCode.symm.trans succeeded) failed, fun _ => .inr ?_⟩
          rw [single]
          exact ⟨_, _, rfl, rfl, clean⟩

section

variable {argv host} {cmdlOpts : CmdlDriver.Options} {module : ASTModule}

theorem means_unique (argparser : CmdlDriver.Registration platform) {other : CmdlDriver.Options}
    (meant : CmdlDriver.Means platform argv cmdlOpts) (means : CmdlDriver.Means platform argv other) :
    cmdlOpts = other := by
  have ran := CmdlDriver.run_of_means argparser meant
  exact Option.some.inj (ran.symm.trans (CmdlDriver.run_of_means argparser means))

/-- A run that succeeds with `--errors` prints nothing on `stdout` but its banner, and
has the same outcome without that option. -/
theorem run_without_errors {other : List Text} {outcome : Outcome} (strict : cmdlOpts.warningsAsErrors = true)
    (meant : CmdlDriver.Means platform argv cmdlOpts)
    (others : CmdlDriver.Means platform other { cmdlOpts with warningsAsErrors := false })
    (ran : run argparser argv host = some (.ok outcome)) (succeeded : outcome.exitCode = EXIT_SUCCESS) :
    outcome.stdout = banner cmdlOpts ∧ run argparser other host = some (.ok outcome) := by
  obtain ⟨_, module, means, compiles, rfl⟩ := compiles_of_success argparser ran succeeded
  obtain rfl := means_unique argparser meant means
  have wellFormed : module.WellFormed true := strict ▸ compiles.wellFormed
  have quiet (opts : SemanticAnalyzer.Options) := SemanticAnalyzer.log_of_strict wellFormed opts
  have lenient : Compiles host { cmdlOpts with warningsAsErrors := false } module :=
    ⟨compiles.parses, SemanticAnalyzer.wellFormed_of_strict wellFormed false,
      compiles.errorCodeFilesOpen, compiles.completes⟩
  refine ⟨?_, (run_of_compiles argparser others lenient).trans ?_⟩
  · rw [success, exit, quiet]
    exact String.append_empty
  · rw [success, success, quiet, quiet]
    rfl

end

section Tutorial

open CmdlDriver FrontEnd

/-- The tutorial with `--errors`. -/
def strictItems : List Item := .boolean "errors".toList "-e".toList :: tutorialItems

def strictArgv : List Text :=
  ["snowlake".toList, "-e".toList, "-o".toList, "out".toList, "tutorial.sl".toList]

theorem strict_means : Means integerPlatform strictArgv (ofItems strictItems) := by
  obtain ⟨⟨_, _, split, splits⟩, required, _⟩ := tutorial_satisfies
  obtain ⟨rfl, rfl⟩ := List.cons.inj split
  have option : Item.OfParameters (parameters integerPlatform) (.boolean "errors".toList "-e".toList) :=
    ⟨_, List.mem_cons_of_mem _ List.mem_cons_self, rfl, .inr rfl, rfl⟩
  have valid := List.forall_mem_cons.mpr ⟨option, splits.valid⟩
  refine ⟨strictItems, ⟨⟨_, _, rfl, valid, rfl⟩, ?_, Nat.le_refl _⟩, rfl⟩
  intro parameter member isRequired
  obtain ⟨item, inItems, named⟩ := required parameter member isRequired
  exact ⟨item, List.mem_cons_of_mem _ inItems, named⟩

/-- The tutorial, compiled with and without `--errors`. -/
theorem strict_run_without_errors :
    (success (tutorialHost (stored (spaced tutorialTokens))) (ofItems strictItems)
        (.ofInference staticMethodStaticDispatch)).stdout = "" ∧
      run (default : Registration integerPlatform) tutorialArgv
          (tutorialHost (stored (spaced tutorialTokens))) =
        some (.ok (success (tutorialHost (stored (spaced tutorialTokens))) (ofItems strictItems)
          (.ofInference staticMethodStaticDispatch))) :=
  run_without_errors default rfl strict_means tutorial_means
    (run_of_compiles default strict_means (tutorial_compiles tutorial_rendering rfl)) rfl

end Tutorial

/-- The order in which the tables of the argument parser are iterated makes no
difference to the outcome of a run. -/
theorem run_registration (other : CmdlDriver.Registration platform) :
    run argparser argv host = run other argv host := by
  have same : CmdlDriver.run argparser argv = CmdlDriver.run other argv := by
    refine Option.ext fun cmdlOpts => ?_
    exact ⟨fun ran => CmdlDriver.run_of_means other (CmdlDriver.means_of_run argparser ran),
      fun ran => CmdlDriver.run_of_means argparser (CmdlDriver.means_of_run other ran)⟩
  rw [run, run, same]

end ProgramDriver

end Snowlake
