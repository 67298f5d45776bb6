import Snowlake.ErrorHandlers
import Snowlake.Sema.SemanticAnalyzer

/-! # Compiler errors and their printer

`src/CompilerError.cpp` and `src/CompilerErrorPrinter.h`.  The errors of all
phases go through the registrar to a printer, which writes a line for each of
them and at last how many there were.
-/

namespace Snowlake

open Checking

/-- `CompilerError`; nothing creates one of type `NoError`. -/
abbrev CompilerError := Report Diagnostic

def CompilerError.message (error : CompilerError) : String :=
  snprintf 2048 (error.body.msg ++ " [" ++ error.body.categoryName ++ " - " ++ error.body.categoryMessage ++
    " (code " ++ toString error.body.code ++ ")]")

/-- `enum ParserErrors`. -/
inductive ParserErrorCode where
  | badInput
  | invalidSyntax
  deriving Repr, DecidableEq

namespace ParserErrorCode

/-- The enumerators count from 4. -/
def code : ParserErrorCode → UInt32
  | badInput => 4
  | invalidSyntax => 5

/-- `CategoryMessageByCode`. -/
def categoryMessage : ParserErrorCode → String
  | badInput => "bad input"
  | invalidSyntax => "invalid syntax"

end ParserErrorCode

structure CompilerErrorPrinter where
  inputFilepath : String
  out : String := ""
  errorsCount : UInt32 := 0
  warningsCount : UInt32 := 0

namespace CompilerErrorPrinter

def printError (printer : CompilerErrorPrinter) (error : CompilerError) : CompilerErrorPrinter :=
  match error.severity with
  | .error => { printer with
      errorsCount := printer.errorsCount + 1
      out := printer.out ++ printer.inputFilepath ++ ": error: " ++ error.message ++ "\n" }
  | .warning => { printer with
      warningsCount := printer.warningsCount + 1
      out := printer.out ++ printer.inputFilepath ++ ": warning: " ++ error.message ++ "\n" }

/-- A line of the summary, if there is something to count. -/
def summary (count : UInt32) (noun : String) : String :=
  if count = 0 then ""
  else toString count ++ noun ++ (if count > 1 then "s" else "") ++ " generated.\n"

/-- The text that is there after `~CompilerErrorPrinter()`. -/
def finish (printer : CompilerErrorPrinter) : String :=
  printer.out ++ (if printer.warningsCount ≠ 0 ∨ printer.errorsCount ≠ 0 then "\n" else "") ++
    summary printer.warningsCount " warning" ++ summary printer.errorsCount " error"

/-- What the printer of a scope writes for the errors that are registered within it. -/
def printed (inputFilepath : String) (errors : List CompilerError) : String :=
  let registrar := CompilerErrorHandlerRegistrar.run
    (.construct (some ()) :: errors.map .registerCompilerError)
  ((registrar.delivered.map Prod.snd).foldl printError ⟨inputFilepath, "", 0, 0⟩).finish

/-! ## The printed text -/

/-- The line of an error. -/
def line (inputFilepath : String) (error : CompilerError) : String :=
  inputFilepath ++ (match error.severity with
    | .error => ": error: "
    | .warning => ": warning: ") ++ error.message ++ "\n"

def countOf (severity : Severity) (errors : List CompilerError) : ℕ :=
  errors.countP fun error => decide (error.severity = severity)

theorem foldl_registerCompilerError {η ε : Type} (errors : List ε) (handler : η)
    (delivered : List (η × ε)) :
    (errors.map HandlerOperation.registerCompilerError).foldl CompilerErrorHandlerRegistrar.step
        ⟨some handler, delivered⟩ =
      ⟨some handler, delivered ++ errors.map (handler, ·)⟩ := by
  induction errors generalizing delivered with
  | nil => simp
  | cons first rest ih =>
      have stepped : CompilerErrorHandlerRegistrar.step ⟨some handler, delivered⟩
          (.registerCompilerError first) = ⟨some handler, delivered ++ [(handler, first)]⟩ := rfl
      rw [List.map_cons, List.foldl_cons, stepped, ih, List.map_cons, List.append_assoc]
      rfl

/-- The one scope there is gets all errors, in order. -/
theorem delivered_of_scope {η ε : Type} (handler : η) (errors : List ε) :
    (CompilerErrorHandlerRegistrar.run
        (.construct (some handler) :: errors.map .registerCompilerError)).delivered =
      errors.map (handler, ·) := by
  have registered := foldl_registerCompilerError errors handler []
  rw [CompilerErrorHandlerRegistrar.run, List.foldl_cons]
  exact congrArg CompilerErrorHandlerRegistrar.delivered registered

/-- An error adds its line, and one to its count. -/
theorem printError_eq (printer : CompilerErrorPrinter) (error : CompilerError) :
    printer.printError error = { printer with
      out := printer.out ++ line printer.inputFilepath error
      errorsCount := printer.errorsCount + UInt32.ofNat (countOf .error [error])
      warningsCount := printer.warningsCount + UInt32.ofNat (countOf .warning [error]) } := by
  obtain ⟨severity, body⟩ := error
  cases severity <;> simp [printError, line, countOf, String.append_assoc]

theorem foldl_printError (errors : List CompilerError) (printer : CompilerErrorPrinter) :
    errors.foldl printError printer = { printer with
      out := printer.out ++ String.join (errors.map (line printer.inputFilepath))
      errorsCount := printer.errorsCount + UInt32.ofNat (countOf .error errors)
      warningsCount := printer.warningsCount + UInt32.ofNat (countOf .warning errors) } := by
  induction errors generalizing printer with
  | nil => simp [countOf]
  | cons first rest ih =>
      have count (severity : Severity) : UInt32.ofNat (countOf severity (first :: rest)) =
          UInt32.ofNat (countOf severity [first]) + UInt32.ofNat (countOf severity rest) := by
        rw [← UInt32.ofNat_add, countOf, countOf, countOf, ← List.countP_append]
        rfl
      rw [List.foldl_cons, ih, printError_eq, count, count, List.map_cons, String.join_cons]
      simp only [String.append_assoc, UInt32.add_assoc]

/-- The printed text: the lines, and the numbers of warnings and of errors. -/
theorem printed_eq (inputFilepath : String) (errors : List CompilerError) :
    printed inputFilepath errors =
      String.join (errors.map (line inputFilepath)) ++
        (if UInt32.ofNat (countOf .warning errors) ≠ 0 ∨ UInt32.ofNat (countOf .error errors) ≠ 0
          then "\n" else "") ++
        summary (UInt32.ofNat (countOf .warning errors)) " warning" ++
        summary (UInt32.ofNat (countOf .error errors)) " error" := by
  have delivered : ((CompilerErrorHandlerRegistrar.run
      (.construct (some ()) :: errors.map .registerCompilerError)).delivered.map Prod.snd) = errors := by
    rw [delivered_of_scope, List.map_map]
    exact List.map_id errors
  simp only [printed, delivered, foldl_printError, finish, String.empty_append, UInt32.zero_add]

/-- Every error has its line in the text. -/
theorem line_in_printed (inputFilepath : String) {errors : List CompilerError} {error : CompilerError}
    (member : error ∈ errors) :
    ∃ before after, printed inputFilepath errors = before ++ line inputFilepath error ++ after := by
  obtain ⟨earlier, later, rfl⟩ := List.append_of_mem member
  rw [printed_eq, List.map_append, List.map_cons, String.join_append, String.join_cons]
  simp only [String.append_assoc]
  exact ⟨_, _, rfl⟩

end CompilerErrorPrinter

end Snowlake
