import Snowlake.Cpp.Comments
import Snowlake.Lib.Bracketed
import Mathlib.Data.List.Basic
import Mathlib.Data.List.TakeWhile

/-! # Brackets and lines of a C++ text

Outside comments the brackets of a text nest, and its lines stand as far to the
right as braces are open around them.  Both are facts about whole texts; they
are put together from texts of whole lines that begin and end in code.
-/

namespace Cpp

open Bracketed

inductive Bracket where
  | brace
  | square
  | round
  deriving Repr, DecidableEq

def bracketRole : Char → Role Bracket
  | '\x7b' => .opens .brace
  | '\x7d' => .closes .brace
  | '[' => .opens .square
  | ']' => .closes .square
  | '(' => .opens .round
  | ')' => .closes .round
  | _ => .neutral

/-- The roles of the braces alone. -/
def braceRole (c : Char) : Role Bracket := (bracketRole c).restrict (· == .brace)

/-- How many braces are open behind a text. -/
def openBraces (text : List Char) : Int := depth braceRole (Mode.code.kept text)

/-- The line has four spaces for each of the braces around it; a line that starts
with a closing brace stands outside of it. -/
def Indented (braces : Int) (line : List Char) : Prop :=
  ∃ (level : Nat) (content : List Char), line = List.replicate (4 * level) ' ' ++ content ∧
    content.head? ≠ some ' ' ∧ braces = level + if content.head? = some '\x7d' then 1 else 0

def Blank (line : List Char) : Prop := ∀ c ∈ line, c = ' '

def WholeLines (text : List Char) : Prop := text = [] ∨ text.getLast? = some '\n'

/-- Under some open braces, each line within braces that is not blank is indented. -/
def LinesIndented (braces : Int) (text : List Char) : Prop :=
  ∀ before line rest, text = before ++ (line ++ '\n' :: rest) → WholeLines before → '\n' ∉ line →
    1 ≤ braces + openBraces before → ¬ Blank line → Indented (braces + openBraces before) line

/-- The brackets of a text nest and its lines are indented. -/
structure LaidOut (text : List Char) : Prop where
  wholeLines : WholeLines text
  balanced : WellBracketed bracketRole (withoutComments text)
  indented : LinesIndented 0 text

/-- The line before ends in a colon, as a label does. -/
def behindLabel (before : List Char) : Bool := before.dropLast.getLast? == some ':'

/-- The same for a text with labels, behind which lines stand four spaces farther to the right. -/
structure LaidOutWithLabels (text : List Char) : Prop where
  wholeLines : WholeLines text
  balanced : WellBracketed bracketRole (withoutComments text)
  indented : ∀ before line rest, text = before ++ (line ++ '\n' :: rest) → WholeLines before →
    '\n' ∉ line → 1 ≤ openBraces before → ¬ Blank line →
    Indented (openBraces before + if behindLabel before then 1 else 0) line

/-! ## Texts one after the other -/

theorem WholeLines.append {first second : List Char} (left : WholeLines first)
    (right : WholeLines second) : WholeLines (first ++ second) := by
  rcases right with rfl | ends
  · rwa [List.append_nil]
  · right
    rw [List.getLast?_append, ends]
    rfl

theorem WholeLines.of_append {first second : List Char} (whole : WholeLines (first ++ second)) :
    WholeLines second := by
  cases second with
  | nil => exact .inl rfl
  | cons c rest =>
      rcases whole with none | ends
      · simp at none
      · right
        rwa [List.getLast?_append_of_ne_nil _ (List.cons_ne_nil c rest)] at ends

/-- A text of whole lines has its last character at the end of a line. -/
theorem WholeLines.eq_nil_of_append {first line : List Char} (whole : WholeLines (first ++ line))
    (oneLine : '\n' ∉ line) : line = [] := by
  by_contra nonempty
  rcases whole.of_append with rfl | ends
  · exact nonempty rfl
  · exact oneLine (List.mem_of_getLast? ends)

theorem openBraces_append {first out : List Char} (reads : Reads first out) (second : List Char) :
    openBraces (first ++ second) = depth braceRole out + openBraces second := by
  rw [openBraces, Mode.kept_append, reads.after, reads.kept, depth_append, openBraces]

theorem LinesIndented.append {first second out : List Char} {braces : Int} (reads : Reads first out)
    (whole : WholeLines first) (left : LinesIndented braces first)
    (right : LinesIndented (braces + depth braceRole out) second) :
    LinesIndented braces (first ++ second) := by
  intro before line rest split isWhole oneLine within notBlank
  -- The line lies in the second text, or it ends in the first.
  have later : ∀ middle, before = first ++ middle → second = middle ++ (line ++ '\n' :: rest) →
      Indented (braces + openBraces before) line := by
    rintro middle rfl rfl
    rw [openBraces_append reads, ← Int.add_assoc] at within ⊢
    exact right middle line rest rfl isWhole.of_append oneLine within notBlank
  rcases List.append_eq_append_iff.mp split with ⟨middle, rfl, rfl⟩ | ⟨start, rfl, inLine⟩
  · exact later middle rfl rfl
  · rcases List.append_eq_append_iff.mp inLine with ⟨behind, rfl, atNewline⟩ | ⟨end', rfl, rfl⟩
    · cases behind with
      | nil =>
          rw [List.append_nil] at whole
          exact absurd (whole.eq_nil_of_append oneLine) fun none => notBlank (by rw [none, Blank]; simp)
      | cons newline rest' =>
          obtain ⟨rfl, rfl⟩ := List.cons.inj atNewline
          exact left before line rest' rfl isWhole oneLine within notBlank
    · have none := whole.eq_nil_of_append fun member => oneLine (List.mem_append_left _ member)
      subst none
      exact later [] (by simp) (by simp)

/-- A single line that is blank, outside of braces, or indented. -/
theorem linesIndented_line {line : List Char} {braces : Int} (oneLine : '\n' ∉ line)
    (indented : 1 ≤ braces → ¬ Blank line → Indented braces line) :
    LinesIndented braces (line ++ ['\n']) := by
  intro before line' rest split isWhole oneLine' within notBlank
  rcases isWhole with rfl | ends
  · rw [List.nil_append] at split
    obtain ⟨rfl, -⟩ := (List.append_cons_inj_of_notMem oneLine List.not_mem_nil).mp split
    rw [openBraces, Mode.kept, depth, Int.add_zero] at within ⊢
    exact indented within notBlank
  · -- A line that ended before this one would make two lines of one.
    have once := congrArg (List.count '\n') split
    have inBefore : 1 ≤ before.count '\n' := List.one_le_count_iff.mpr (List.mem_of_getLast? ends)
    simp only [List.count_append, List.count_cons_self, List.count_nil,
      List.count_eq_zero_of_not_mem oneLine] at once
    omega

theorem linesIndented_nil {braces : Int} : LinesIndented braces [] := by
  intro before line rest split
  simp at split

/-- Outside of braces a text without braces may stand as it likes. -/
theorem linesIndented_of_noBraces {text out : List Char} {braces : Int} (reads : Reads text out)
    (noBraces : ∀ c ∈ out, braceRole c = .neutral) (outside : braces ≤ 0) :
    LinesIndented braces text := by
  intro before line rest split _ _ within
  have neutral : ∀ c ∈ Mode.code.kept before, braceRole c = .neutral := by
    intro c member
    refine noBraces c ?_
    rw [← reads.kept, split, Mode.kept_append]
    exact List.mem_append_left _ member
  have none := (WellBracketed.of_neutral neutral).depth_eq_zero
  rw [openBraces, none] at within
  omega

/-! ## Blocks -/

/-- Whole lines under some open braces that leave no bracket open. -/
structure Block (braces : Int) (text : List Char) : Prop where
  wholeLines : WholeLines text
  reads : Mode.code.after text = .code
  balanced : WellBracketed bracketRole (Mode.code.kept text)
  indented : LinesIndented braces text

theorem depth_braceRole {out : List Char} (balanced : WellBracketed bracketRole out) :
    depth braceRole out = 0 :=
  (balanced.restrict _).depth_eq_zero

theorem Block.laidOut {text : List Char} (block : Block 0 text) : LaidOut text where
  wholeLines := block.wholeLines
  balanced := by
    rw [Reads.withoutComments ⟨block.reads, rfl⟩]
    exact block.balanced
  indented := block.indented

theorem Block.nil {braces : Int} : Block braces [] := ⟨.inl rfl, rfl, .nil, linesIndented_nil⟩

theorem Block.append {first second : List Char} {braces : Int} (left : Block braces first)
    (right : Block braces second) : Block braces (first ++ second) where
  wholeLines := left.wholeLines.append right.wholeLines
  reads := by rw [Mode.after_append, left.reads, right.reads]
  balanced := by
    rw [Mode.kept_append, left.reads]
    exact left.balanced.append right.balanced
  indented := by
    refine LinesIndented.append ⟨left.reads, rfl⟩ left.wholeLines left.indented ?_
    rw [depth_braceRole left.balanced, Int.add_zero]
    exact right.indented

theorem Block.blank {braces : Int} : Block braces ['\n'] where
  wholeLines := .inr rfl
  reads := rfl
  balanced := .of_neutral (by simp [Mode.kept, Mode.output, bracketRole])
  indented := linesIndented_line List.not_mem_nil fun _ notBlank =>
    absurd (fun _ member => absurd member List.not_mem_nil) notBlank

/-- Text outside of braces that has no brackets. -/
theorem Block.outside {text out : List Char} (whole : WholeLines text) (reads : Reads text out)
    (neutral : ∀ c ∈ out, bracketRole c = .neutral) : Block 0 text where
  wholeLines := whole
  reads := reads.after
  balanced := by
    rw [reads.kept]
    exact .of_neutral neutral
  indented := by
    have noBraces : ∀ c ∈ out, braceRole c = .neutral := by
      intro c member
      rw [braceRole, neutral c member]
      rfl
    exact linesIndented_of_noBraces reads noBraces (Int.le_refl 0)

/-- Text on one line, without comments or strings, whose brackets nest. -/
structure Neat (text : List Char) : Prop where
  plain : ∀ c ∈ text, isPlain c = true
  oneLine : '\n' ∉ text
  balanced : WellBracketed bracketRole text

namespace Neat

theorem append {first second : List Char} (left : Neat first) (right : Neat second) :
    Neat (first ++ second) where
  plain := List.forall_mem_append.mpr ⟨left.plain, right.plain⟩
  oneLine member := (List.mem_append.mp member).elim left.oneLine right.oneLine
  balanced := left.balanced.append right.balanced

theorem nil : Neat [] := ⟨by simp, by simp, .nil⟩

/-- A text of which that is checked. -/
theorem of_checks {text : List Char}
    (checked : (text.all (fun c => isPlain c && c != '\n') && checks bracketRole [] text) = true) :
    Neat text := by
  simp only [Bool.and_eq_true, List.all_eq_true, bne_iff_ne, ne_eq] at checked
  exact ⟨fun c member => (checked.1 c member).1, fun member => (checked.1 _ member).2 rfl,
    wellBracketed_of_checks checked.2⟩

theorem enclose {opening closing : Char} {label : Bracket} {inside : List Char}
    (opened : bracketRole opening = .opens label) (neat : Neat inside)
    (closed : bracketRole closing = .closes label) : Neat (opening :: (inside ++ [closing])) := by
  have bracket : ∀ c label, (bracketRole c = .opens label ∨ bracketRole c = .closes label) →
      isPlain c = true ∧ c ≠ '\n' := by
    intro c label isBracket
    constructor
    · by_contra notPlain
      simp only [isPlain, Bool.and_eq_true, bne_iff_ne, ne_eq, not_and_or, not_not] at notPlain
      rcases notPlain with rfl | rfl <;> rcases isBracket with same | same <;> cases same
    · rintro rfl
      rcases isBracket with same | same <;> cases same
  obtain ⟨plainOpening, noNewline⟩ := bracket opening label (.inl opened)
  obtain ⟨plainClosing, noNewline'⟩ := bracket closing label (.inr closed)
  refine ⟨?_, ?_, .enclose opened neat.balanced closed⟩
  · simp only [List.forall_mem_cons, List.forall_mem_append, List.not_mem_nil, false_implies,
      implies_true, and_true]
    exact ⟨plainOpening, neat.plain, plainClosing⟩
  · simp only [List.mem_cons, List.mem_append, List.not_mem_nil, or_false, not_or]
    exact ⟨noNewline.symm, neat.oneLine, noNewline'.symm⟩

end Neat

theorem replicate_append_newline {level : Nat} {content : List Char} :
    List.replicate (4 * level) ' ' ++ (content ++ ['\n']) =
      (List.replicate (4 * level) ' ' ++ content) ++ ['\n'] := by
  rw [List.append_assoc]

theorem spaces_oneLine {level : Nat} {content : List Char} (oneLine : '\n' ∉ content) :
    '\n' ∉ List.replicate (4 * level) ' ' ++ content := by
  rw [List.mem_append, List.mem_replicate]
  rintro (⟨-, same⟩ | member)
  · cases same
  · exact oneLine member

theorem neat_spaces (level : Nat) : Neat (List.replicate (4 * level) ' ') := by
  have isSpace : ∀ c ∈ List.replicate (4 * level) ' ', c = ' ' := fun c => List.eq_of_mem_replicate
  refine ⟨fun c member => ?_, fun member => absurd (isSpace _ member) (by decide),
    .of_neutral fun c member => ?_⟩
  · rw [isSpace c member]
    rfl
  · rw [isSpace c member]
    rfl

/-- A line of code, indented as the braces around it ask for. -/
theorem Block.line {level : Nat} {content : List Char} (neat : Neat content)
    (starts : content.head? ≠ some ' ' ∧ content.head? ≠ some '\x7d') :
    Block level (List.replicate (4 * level) ' ' ++ (content ++ ['\n'])) := by
  have whole := ((neat_spaces level).append neat)
  have reads := (reads_plain whole.plain).append (@reads_plain ['\n'] (by simp [isPlain]))
  rw [replicate_append_newline]
  refine ⟨.inr List.getLast?_concat, reads.after, ?_, ?_⟩
  · rw [reads.kept]
    exact whole.balanced.append (.of_neutral (by simp [bracketRole]))
  · refine linesIndented_line (spaces_oneLine neat.oneLine) fun _ _ => ⟨level, content, rfl, starts.1, ?_⟩
    rw [if_neg starts.2, Int.add_zero]

/-- A line comment, indented like code. -/
theorem Block.comment {level : Nat} {body : List Char} (oneLine : '\n' ∉ body) :
    Block level (List.replicate (4 * level) ' ' ++ '/' :: '/' :: (body ++ ['\n'])) := by
  have reads := (reads_plain (neat_spaces level).plain).append (reads_lineComment oneLine)
  refine ⟨?_, reads.after, ?_, ?_⟩
  · right
    rw [List.getLast?_append]
    simp [List.getLast?_cons, List.getLast?_append]
  · rw [reads.kept]
    exact (neat_spaces level).balanced.append (.of_neutral (by simp [bracketRole]))
  · have content : '\n' ∉ '/' :: '/' :: body := by simpa using oneLine
    have same : List.replicate (4 * level) ' ' ++ '/' :: '/' :: (body ++ ['\n']) =
        (List.replicate (4 * level) ' ' ++ '/' :: '/' :: body) ++ ['\n'] := by simp
    rw [same]
    refine linesIndented_line (spaces_oneLine content) fun _ _ => ⟨level, _, rfl, by simp, ?_⟩
    simp

theorem Neat.reads {text : List Char} (neat : Neat text) : Reads text text := reads_plain neat.plain

theorem Neat.depth {text : List Char} (neat : Neat text) : depth braceRole text = 0 :=
  depth_braceRole neat.balanced

/-- The line that opens a scope. -/
theorem linesIndented_opening {level : Nat} {head : List Char} (neat : Neat head)
    (starts : head.head? ≠ some ' ' ∧ head.head? ≠ some '\x7d') :
    LinesIndented level (List.replicate (4 * level) ' ' ++ (head ++ ['\x7b', '\n'])) := by
  have oneLine : '\n' ∉ head ++ ['\x7b'] := by simpa using neat.oneLine
  have same : List.replicate (4 * level) ' ' ++ (head ++ ['\x7b', '\n']) =
      (List.replicate (4 * level) ' ' ++ (head ++ ['\x7b'])) ++ ['\n'] := by simp
  rw [same]
  refine linesIndented_line (spaces_oneLine oneLine) fun _ _ => ⟨level, _, rfl, ?_⟩
  cases head with
  | nil => simp
  | cons c rest =>
      simp only [List.head?_cons, ne_eq, Option.some.injEq] at starts
      simp [starts.1, starts.2]

/-- The line that closes a scope. -/
theorem linesIndented_closing (level : Nat) :
    LinesIndented (level + 1) (List.replicate (4 * level) ' ' ++ ['\x7d', '\n']) := by
  have same : List.replicate (4 * level) ' ' ++ ['\x7d', '\n'] =
      (List.replicate (4 * level) ' ' ++ ['\x7d']) ++ ['\n'] := by simp
  rw [same]
  exact linesIndented_line (spaces_oneLine (by simp)) fun _ _ => ⟨level, _, rfl, by simp, by simp⟩

theorem wholeLines_concat (text : List Char) (c : Char) : WholeLines (text ++ [c, '\n']) := by
  right
  rw [List.getLast?_append]
  rfl

/-- A scope around a block. -/
theorem Block.scope {level : Nat} {head body : List Char} (neat : Neat head)
    (starts : head.head? ≠ some ' ' ∧ head.head? ≠ some '\x7d') (inside : Block (level + 1) body) :
    Block level (List.replicate (4 * level) ' ' ++ (head ++ ['\x7b', '\n']) ++ body ++
      (List.replicate (4 * level) ' ' ++ ['\x7d', '\n'])) := by
  have brace : ∀ c : Char, c = '\x7b' ∨ c = '\x7d' → ∀ d ∈ [c, '\n'], isPlain d = true := by
    rintro c (rfl | rfl) <;> simp [isPlain]
  have opening := (neat_spaces level).reads.append (neat.reads.append (reads_plain (brace _ (.inl rfl))))
  have closing := (neat_spaces level).reads.append (reads_plain (brace _ (.inr rfl)))
  have opened : depth braceRole (List.replicate (4 * level) ' ' ++ (head ++ ['\x7b', '\n'])) = 1 := by
    rw [depth_append, depth_append, (neat_spaces level).depth, neat.depth]
    rfl
  have body' : Reads body (Mode.code.kept body) := ⟨inside.reads, rfl⟩
  have reads := (opening.append body').append closing
  refine ⟨?_, reads.after, ?_, ?_⟩
  · rw [← List.append_assoc]
    exact wholeLines_concat _ _
  · rw [reads.kept]
    have bracketed := ((neat_spaces level).balanced.append neat.balanced).append
      (@WellBracketed.scope _ _ bracketRole '\x7b' .brace _ '\x7d' ['\n'] rfl
        (((WellBracketed.of_neutral (by simp [bracketRole]) :
          WellBracketed bracketRole ['\n']).append inside.balanced).append (neat_spaces level).balanced)
        rfl (.of_neutral (by simp [bracketRole])))
    simpa using bracketed
  · have whole : WholeLines (List.replicate (4 * level) ' ' ++ (head ++ ['\x7b', '\n'])) := by
      rw [← List.append_assoc]
      exact wholeLines_concat _ _
    have deeper := LinesIndented.append opening whole (linesIndented_opening neat starts)
      (by rw [opened]; exact inside.indented)
    refine LinesIndented.append (opening.append body') (whole.append inside.wholeLines) deeper ?_
    rw [depth_append, opened, depth_braceRole inside.balanced, Int.add_zero]
    exact linesIndented_closing level

/-! ## Texts of which it is checked -/

theorem indented_iff {braces : Int} {line : List Char} :
    Indented braces line ↔
      4 * (braces - if (line.dropWhile (· = ' ')).head? = some '\x7d' then 1 else 0) =
        (line.takeWhile (· = ' ')).length := by
  constructor
  · rintro ⟨level, content, rfl, notSpace, same⟩
    have spaces : ∀ c ∈ List.replicate (4 * level) ' ', decide (c = ' ') = true := fun c member =>
      decide_eq_true (List.eq_of_mem_replicate member)
    have stops : content.takeWhile (· = ' ') = [] ∧ content.dropWhile (· = ' ') = content := by
      cases content with
      | nil => exact ⟨rfl, rfl⟩
      | cons c rest =>
          have other : ¬ c = ' ' := fun isSpace => notSpace (congrArg some isSpace)
          exact ⟨List.takeWhile_cons_of_neg (by simpa using other),
            List.dropWhile_cons_of_neg (by simpa using other)⟩
    rw [List.takeWhile_append_of_pos spaces, List.dropWhile_append_of_pos spaces, stops.1, stops.2,
      List.append_nil, List.length_replicate]
    omega
  · intro same
    have spaces : line.takeWhile (· = ' ') = List.replicate (line.takeWhile (· = ' ')).length ' ' :=
      List.eq_replicate_of_mem fun c member => by
        have isSpace := List.mem_takeWhile_imp member
        simpa using isSpace
    have stops : (line.dropWhile (· = ' ')).head? ≠ some ' ' := by
      intro isSpace
      have other := List.head?_dropWhile_not (· = ' ') line
      rw [isSpace] at other
      simp at other
    refine ⟨(braces - if (line.dropWhile (· = ' ')).head? = some '\x7d' then 1 else 0).toNat,
      line.dropWhile (· = ' '), ?_, stops, by omega⟩
    have level : 4 * (braces - if (line.dropWhile (· = ' ')).head? = some '\x7d' then 1 else 0).toNat =
        (line.takeWhile (· = ' ')).length := by omega
    rw [level, ← spaces, List.takeWhile_append_dropWhile]

instance (braces : Int) (line : List Char) : Decidable (Indented braces line) :=
  decidable_of_iff _ indented_iff.symm

/-- What the lines before a line leave behind: where the reader stands, how many
braces are open, and whether the last of the lines is a label. -/
structure Margin where
  mode : Mode
  braces : Int
  labelled : Bool

def margin (before : List Char) : Margin :=
  ⟨Mode.code.after before, openBraces before, behindLabel before⟩

def Margin.next (margin : Margin) (line : List Char) : Margin where
  mode := margin.mode.after (line ++ ['\n'])
  braces := margin.braces + depth braceRole (margin.mode.kept (line ++ ['\n']))
  labelled := line.getLast? == some ':'

theorem margin_append {before : List Char} (whole : WholeLines before) (line : List Char) :
    margin (before ++ (line ++ ['\n'])) = (margin before).next line := by
  have label : behindLabel (before ++ (line ++ ['\n'])) = (line.getLast? == some ':') := by
    rw [behindLabel, ← List.append_assoc, List.dropLast_concat]
    rcases List.eq_nil_or_concat line with rfl | ⟨front, c, rfl⟩
    · rcases whole with rfl | ends
      · rfl
      · rw [List.append_nil, ends]
        rfl
    · rw [List.concat_eq_append, ← List.append_assoc, List.getLast?_concat, List.getLast?_concat]
  rw [margin, label, Mode.after_append, openBraces, Mode.kept_append, depth_append]
  rfl

/-- The test of a line in a text with labels. -/
def Margin.accepts (margin : Margin) (line : List Char) : Bool :=
  margin.braces < 1 || line.all (· = ' ') ||
    Indented (margin.braces + if margin.labelled then 1 else 0) line

def everyLine : Margin → List (List Char) → Bool
  | _, [] => true
  | margin, line :: rest => margin.accepts line && everyLine (margin.next line) rest

theorem line_inj {first second rest rest' : List Char} (oneLine : '\n' ∉ first) (oneLine' : '\n' ∉ second)
    (same : first ++ '\n' :: rest = second ++ '\n' :: rest') : first = second := by
  rcases List.append_eq_append_iff.mp same with ⟨middle, rfl, atNewline⟩ | ⟨middle, rfl, atNewline⟩
  · rcases List.cons_eq_append_iff.mp atNewline with ⟨rfl, -⟩ | ⟨middle', rfl, -⟩
    · exact (List.append_nil first).symm
    · exact absurd (List.mem_append_right _ List.mem_cons_self) oneLine'
  · rcases List.cons_eq_append_iff.mp atNewline with ⟨rfl, -⟩ | ⟨middle', rfl, -⟩
    · exact List.append_nil second
    · exact absurd (List.mem_append_right _ List.mem_cons_self) oneLine

theorem accepts_of_everyLine {lines : List (List Char)} (oneLines : ∀ line ∈ lines, '\n' ∉ line)
    {before : List Char} (whole : WholeLines before) (checked : everyLine (margin before) lines = true)
    {between line rest : List Char}
    (split : lines.flatMap (· ++ ['\n']) = between ++ (line ++ '\n' :: rest))
    (whole' : WholeLines between) (oneLine : '\n' ∉ line) :
    (margin (before ++ between)).accepts line = true := by
  induction lines generalizing before between with
  | nil => simp at split
  | cons first lines ih =>
      rw [everyLine, ← margin_append whole, Bool.and_eq_true] at checked
      rw [List.flatMap_cons] at split
      have firstLine := oneLines first List.mem_cons_self
      have later {middle : List Char}
          (split' : lines.flatMap (· ++ ['\n']) = middle ++ (line ++ '\n' :: rest))
          (whole' : WholeLines middle) :
          (margin (before ++ ((first ++ ['\n']) ++ middle))).accepts line = true := by
        rw [← List.append_assoc]
        exact ih (fun other member => oneLines other (List.mem_cons_of_mem _ member))
          (whole.append (.inr List.getLast?_concat)) checked.2 split' whole'
      rcases whole' with rfl | ends
      · rw [List.append_assoc] at split
        obtain rfl := line_inj firstLine oneLine split
        rw [List.append_nil]
        exact checked.1
      · rcases List.append_eq_append_iff.mp split with ⟨middle, rfl, split'⟩ | ⟨middle, isFirst, split'⟩
        · exact later split' (WholeLines.of_append (.inr ends))
        · -- The first line has no end but its last character.
          rcases List.eq_nil_or_concat middle with rfl | ⟨front, c, rfl⟩
          · rw [List.append_nil] at isFirst
            subst isFirst
            simpa using @later [] split'.symm (.inl rfl)
          · rw [List.concat_eq_append, ← List.append_assoc] at isFirst
            obtain ⟨rfl, -⟩ := List.append_inj' isFirst rfl
            exact absurd (List.mem_append_left _ (List.mem_of_getLast? ends)) firstLine

def checksWithLabels (text : List Char) : Bool :=
  let lines := (text.splitOn '\n').dropLast
  text == lines.flatMap (· ++ ['\n']) && lines.all (!·.contains '\n') &&
    checks bracketRole [] (withoutComments text) && everyLine ⟨.code, 0, false⟩ lines

theorem wholeLines_flatMap (lines : List (List Char)) : WholeLines (lines.flatMap (· ++ ['\n'])) := by
  rcases List.eq_nil_or_concat lines with rfl | ⟨front, last, rfl⟩
  · exact .inl rfl
  · right
    rw [List.concat_eq_append, List.flatMap_append, List.flatMap_singleton, ← List.append_assoc]
    exact List.getLast?_concat

theorem laidOutWithLabels_of_checks {text : List Char} (checked : checksWithLabels text = true) :
    LaidOutWithLabels text := by
  rw [checksWithLabels, Bool.and_eq_true, Bool.and_eq_true, Bool.and_eq_true, beq_iff_eq] at checked
  obtain ⟨⟨⟨split, oneLines⟩, balanced⟩, indented⟩ := checked
  refine ⟨split ▸ wholeLines_flatMap _, wellBracketed_of_checks balanced, ?_⟩
  intro before line rest split' whole oneLine within notBlank
  have areLines : ∀ line ∈ (text.splitOn '\n').dropLast, '\n' ∉ line := by
    intro line member
    simpa using List.all_eq_true.mp oneLines line member
  have accepted := @accepts_of_everyLine _ areLines [] (.inl rfl) indented _ _ _ (split ▸ split')
    whole oneLine
  have isBlank : ¬ line.all (· = ' ') = true := by
    intro isBlank
    exact notBlank fun c member => of_decide_eq_true (List.all_eq_true.mp isBlank c member)
  rw [List.nil_append, Margin.accepts, Bool.or_eq_true, Bool.or_eq_true, decide_eq_true_eq,
    decide_eq_true_eq] at accepted
  rcases accepted with (outside | blank) | stands
  · exact absurd within (by simpa [margin] using outside)
  · exact absurd blank isBlank
  · exact stands

/-- The line behind some characters is within braces and not where they ask it to be. -/
def misplacedAt (position : Nat) (text : List Char) : Bool :=
  let before := text.take position
  let line := (text.drop position).takeWhile (· != '\n')
  ((text.drop position).dropWhile (· != '\n')).head? == some '\n' && before.getLast? == some '\n' &&
    1 ≤ openBraces before && !line.all (· = ' ') && !Indented (openBraces before) line

theorem not_laidOut_of_misplacedAt {position : Nat} {text : List Char}
    (misplaced : misplacedAt position text = true) : ¬ LaidOut text := by
  intro laidOut
  simp only [misplacedAt, Bool.and_eq_true, beq_iff_eq, decide_eq_true_eq, Bool.not_eq_true',
    decide_eq_false_iff_not] at misplaced
  obtain ⟨⟨⟨⟨newline, whole⟩, within⟩, notBlank⟩, notIndented⟩ := misplaced
  obtain ⟨rest, behind⟩ := List.head?_eq_some_iff.mp newline
  have split : text =
      text.take position ++ ((text.drop position).takeWhile (· != '\n') ++ '\n' :: rest) := by
    rw [← behind, List.takeWhile_append_dropWhile, List.take_append_drop]
  have oneLine : '\n' ∉ (text.drop position).takeWhile (· != '\n') := by
    intro member
    simpa using List.mem_takeWhile_imp member
  have isBlank : ¬ Blank ((text.drop position).takeWhile (· != '\n')) := by
    intro blank
    rw [List.all_eq_true.mpr fun c member => decide_eq_true (blank c member)] at notBlank
    cases notBlank
  have stands := laidOut.indented _ _ _ split (.inr whole) oneLine (by rwa [Int.zero_add]) isBlank
  rw [Int.zero_add] at stands
  exact notIndented stands

end Cpp
