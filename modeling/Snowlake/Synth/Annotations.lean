import Snowlake.Cpp.Comments
import Snowlake.Synth.Reading

/-! # The annotation comments

The texts between the code of a file that say where it comes from.  A comment
with a name in it is read as one comment; the one with the path of the source
is, unless the path ends it.
-/

namespace Snowlake

open Cpp (Mode Reads)

namespace Synthesizer

/-- The characters of a path that get into the comment on it: up to the first
NUL, as far as the buffer has room behind the words before them. -/
def annotatedPath (path : String) : List Char := (cString path).toList.take 992

theorem snprintf_inputSource (path : String) :
    (snprintf 1024 ("This file was synthesized from " ++ cString path)).toList =
      "This file was synthesized from ".toList ++ annotatedPath path := by
  rw [snprintf, String.toList_ofList, String.toList_append, List.take_append]
  rfl

theorem annotatedPath_begins (path : String) : annotatedPath path <+: path.toList := by
  rw [annotatedPath, cString, String.toList_ofList]
  exact (List.take_prefix _ _).trans (List.takeWhile_prefix _)

/-- A path without the end of a comment leaves the reader in the comment. -/
theorem inBlock_annotatedPath {path : String} (noEnd : ¬ ['*', '/'] <:+: path.toList) :
    (Mode.block.after (annotatedPath path)).inBlock = true ∧ Mode.block.kept (annotatedPath path) = [] := by
  have noEnd' : ¬ ['*', '/'] <:+: annotatedPath path := fun inside =>
    noEnd (inside.trans (annotatedPath_begins path).isInfix)
  exact Cpp.inBlock_of_noEnd noEnd' (.inl rfl)

theorem toList_renderIndentation (level : Nat) :
    (renderIndentation level).toList = List.replicate (4 * level) ' ' := by
  induction level with
  | zero => rfl
  | succ level ih =>
      have deeper : renderIndentation (level + 1) = "    " ++ renderIndentation level := by
        simp [renderIndentation, List.replicate_succ]
      rw [deeper, String.toList_append, ih, Nat.mul_succ, Nat.add_comm, List.replicate_add]
      rfl

/-- A comment block is read as one comment if the reader is still in it behind its text. -/
theorem reads_renderCommentBlock (level : Nat) {text : String}
    (inside : (Mode.block.after (snprintf 1024 text).toList).inBlock = true)
    (silent : Mode.block.kept (snprintf 1024 text).toList = []) :
    Reads (renderCommentBlock level text).toList (List.replicate (4 * level) ' ' ++ [' ', '\n']) := by
  have reads := @Cpp.reads_commentBlock (List.replicate (4 * level) ' ') _
    (fun c => List.eq_of_mem_replicate) inside silent
  simpa [renderCommentBlock, commentBlockBegin, commentBlockEnd, toList_renderIndentation] using reads

/-- A text without a slash ends no comment. -/
theorem reads_renderCommentBlock_of_noSlash (level : Nat) {text : String} (noSlash : '/' ∉ text.toList) :
    Reads (renderCommentBlock level text).toList (List.replicate (4 * level) ' ' ++ [' ', '\n']) := by
  have noSlash' : '/' ∉ (snprintf 1024 text).toList := by
    rw [snprintf, String.toList_ofList]
    exact fun member => noSlash (List.mem_of_mem_take member)
  obtain ⟨inside, silent⟩ := Cpp.inBlock_of_noEnd (Cpp.noEnd_of_noSlash noSlash') (.inl rfl)
  exact reads_renderCommentBlock level inside silent

theorem mem_of_mem_cString {text : String} {c : Char} (member : c ∈ (cString text).toList) :
    c ∈ text.toList := by
  rw [cString, String.toList_ofList] at member
  exact (List.takeWhile_prefix _).subset member

end Synthesizer

end Snowlake
