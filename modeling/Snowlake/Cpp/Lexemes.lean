import Snowlake.Cpp.Layout
import Snowlake.Cpp.Lexer

/-! # Token sequences

The tokens of a text, with their characters, once its comments are gone.  White
space keeps tokens apart and is none, and no token goes on behind the end of a
line.  So texts of whole lines have the tokens of one behind those of the other.
-/

namespace Cpp

open MaximalMunch Pattern

def isSpace (c : Char) : Bool :=
  c == ' ' || c == '\t' || c == '\n' || c == '\x0b' || c == '\x0c'

/-- A string literal: on one line, with escapes. -/
def stringPattern : Pattern Char :=
  .seq (.one (· == '"')) (.seq (.star (.alt (.one fun c => c != '"' && c != '\\' && c != '\n')
    (.seq (.one (· == '\\')) (.one (· != '\n'))))) (.one (· == '"')))

/-- The rules for tokens, and the first of them for what is none. -/
def lexemeRules : List (Pattern Char × Bool) :=
  [(.one isSpace, false), (wordPattern, true), (numberPattern, true), (stringPattern, true)] ++
  (punctuators.map fun punctuator => (literal punctuator.1, true)) ++
  [(.one fun _ => true, true)]

def lexemes (text : List Char) : List (List Char) :=
  ((scan lexemeRules text).filter (·.1)).map (·.2)

/-- The token sequence of a text. -/
def tokenSequence (text : List Char) : List (List Char) := lexemes (withoutComments text)

/-! ## The rules -/

theorem mem_lexemeRules_iff {rule : Pattern Char × Bool} :
    rule ∈ lexemeRules ↔ rule = (.one isSpace, false) ∨ rule = (wordPattern, true) ∨
      rule = (numberPattern, true) ∨ rule = (stringPattern, true) ∨
      (∃ punctuator ∈ punctuators, rule = (literal punctuator.1, true)) ∨
      rule = (.one fun _ => true, true) := by
  simp only [lexemeRules, List.mem_append, List.mem_cons, List.not_mem_nil, or_false, List.mem_map,
    or_assoc, eq_comm]

theorem lexemeRules_total (c : Char) (rest : List Char) :
    ∃ length result, munch lexemeRules (c :: rest) = some (length + 1, result) := by
  have matched : Matches (.one fun _ => true) [c] := .one rfl
  have member : ((.one fun _ => true, true) : Pattern Char × Bool) ∈ lexemeRules :=
    List.mem_append_right _ List.mem_cons_self
  obtain ⟨length, found, nonempty⟩ := le_longest matched rest
  obtain ⟨⟨taken, result⟩, munched, atLeast⟩ := le_munch member found
  rw [List.length_singleton] at nonempty
  obtain ⟨less, rfl⟩ : ∃ less, taken = less + 1 := ⟨taken - 1, by simp only at atLeast; omega⟩
  exact ⟨less, result, munched⟩

theorem length_le_of_matches_one {accepts : Char → Bool} {text : List Char}
    (matched : Matches (.one accepts) text) : text.length ≤ 1 := by
  obtain ⟨c, -, rfl⟩ := matches_one_iff.mp matched
  exact Nat.le_refl 1

theorem accepts_head {start : Char → Bool} {later : Pattern Char} {c : Char} {text : List Char}
    (matched : Matches (.seq (.one start) later) (c :: text)) : start c = true := by
  obtain ⟨left, right, split, first, -⟩ := matches_seq_iff.mp matched
  obtain ⟨other, accepted, rfl⟩ := matches_one_iff.mp first
  obtain ⟨rfl, -⟩ := List.cons.inj split
  exact accepted

/-- A line does not end within a token. -/
theorem newline_alone {rule : Pattern Char × Bool} (member : rule ∈ lexemeRules) {text : List Char}
    (matched : Matches rule.1 text) (inside : '\n' ∈ text) : text.length ≤ 1 := by
  have used := matched.uses '\n' inside
  rcases mem_lexemeRules_iff.mp member with rfl | rfl | rfl | rfl | ⟨punctuator, listed, rfl⟩ | rfl
  · exact length_le_of_matches_one matched
  · cases used
  · cases used
  · cases used
  · have unused : punctuators.all (fun punctuator => !(literal punctuator.1).uses '\n') = true := by decide
    have none := List.all_eq_true.mp unused punctuator listed
    rw [used] at none
    cases none
  · exact length_le_of_matches_one matched

theorem isSpace_cases {c : Char} (space : isSpace c = true) :
    c = ' ' ∨ c = '\t' ∨ c = '\n' ∨ c = '\x0b' ∨ c = '\x0c' := by
  simpa [isSpace, or_assoc] using space

/-- Nothing longer begins with white space. -/
theorem space_alone {rule : Pattern Char × Bool} (member : rule ∈ lexemeRules) {c : Char}
    (space : isSpace c = true) {text : List Char} (matched : Matches rule.1 (c :: text)) : text = [] := by
  have single {accepts : Char → Bool} (matched : Matches (.one accepts) (c :: text)) : text = [] := by
    obtain ⟨other, -, same⟩ := matches_one_iff.mp matched
    exact (List.cons.inj same).2
  have cases_space := isSpace_cases space
  rcases mem_lexemeRules_iff.mp member with rfl | rfl | rfl | rfl | ⟨punctuator, listed, rfl⟩ | rfl
  · exact single matched
  · have letter := accepts_head matched
    rcases cases_space with rfl | rfl | rfl | rfl | rfl <;> cases letter
  · have digit := accepts_head matched
    rcases cases_space with rfl | rfl | rfl | rfl | rfl <;> cases digit
  · have quote := accepts_head matched
    rcases cases_space with rfl | rfl | rfl | rfl | rfl <;> cases quote
  · have starts : punctuators.all (fun punctuator => !punctuator.1.head?.any isSpace) = true := by decide
    have none := List.all_eq_true.mp starts punctuator listed
    rw [← matches_literal_iff.mp matched] at none
    simp [space] at none
  · exact single matched

/-! ## Texts one after the other -/

theorem lexemes_space {c : Char} (space : isSpace c = true) (rest : List Char) :
    lexemes (c :: rest) = lexemes rest := by
  have maximal : ∀ rule ∈ lexemeRules, ∀ length,
      longest rule.1 ([c] ++ rest) = some length → length ≤ [c].length := by
    intro rule member length found
    obtain ⟨within, matched⟩ := matches_of_longest found
    cases length with
    | zero => exact Nat.zero_le _
    | succ length =>
        have nothing := space_alone member space matched
        rw [List.singleton_append, List.length_cons] at within
        rcases List.take_eq_nil_iff.mp nothing with rfl | rfl
        · exact Nat.le_refl 1
        · exact within
  have accepted : (Pattern.one isSpace).accepts [c] = true := (accepts_iff ..).mpr (.one space)
  have first : lexemeRules.find? (fun rule => rule.1.accepts [c]) = some (.one isSpace, false) :=
    List.find?_cons_of_pos accepted
  have scanned := scan_append (List.cons_ne_nil c []) (munch_of_find first maximal)
  rw [List.singleton_append] at scanned
  rw [lexemes, scanned]
  rfl

theorem lexemes_newline (line rest : List Char) :
    lexemes (line ++ '\n' :: rest) = lexemes line ++ lexemes rest := by
  have divided := scan_divide lexemeRules_total (fun rule member text => newline_alone member) line rest
  rw [← lexemes_space (c := '\n') rfl rest, lexemes, divided, List.filter_append, List.map_append]
  rfl

theorem lexemes_nil : lexemes [] = [] := by
  rw [lexemes, scan]
  rfl

theorem lexemes_append {first : List Char} (whole : WholeLines first) (second : List Char) :
    lexemes (first ++ second) = lexemes first ++ lexemes second := by
  rcases whole with rfl | ends
  · rw [lexemes_nil]
    rfl
  · obtain ⟨front, rfl⟩ := List.getLast?_eq_some_iff.mp ends
    rw [List.append_assoc, List.singleton_append, lexemes_newline, lexemes_newline, lexemes_nil,
      List.append_nil]

theorem lexemes_eq_nil_iff {text : List Char} :
    lexemes text = [] ↔ ∀ c ∈ text, isSpace c = true := by
  constructor
  · intro none c member
    rw [← flatten_scan lexemeRules_total text, List.mem_flatten] at member
    obtain ⟨part, taken, inPart⟩ := member
    obtain ⟨⟨result, _⟩, inScan, rfl⟩ := List.mem_map.mp taken
    rw [lexemes, List.map_eq_nil_iff, List.filter_eq_nil_iff] at none
    have isNone := none _ inScan
    obtain ⟨-, pattern, isRule, matched⟩ := matches_of_mem_scan inScan
    simp only [Bool.not_eq_true] at isNone
    subst isNone
    have isFirst : pattern = .one isSpace := by
      simpa using mem_lexemeRules_iff.mp isRule
    subst isFirst
    obtain ⟨other, space, rfl⟩ := matches_one_iff.mp matched
    obtain rfl := List.mem_singleton.mp inPart
    exact space
  · intro spaces
    induction text with
    | nil => exact lexemes_nil
    | cons c rest ih =>
        rw [lexemes_space (spaces c List.mem_cons_self)]
        exact ih fun other member => spaces other (List.mem_cons_of_mem _ member)

/-- Whole lines from code to code. -/
structure Lines (text : List Char) : Prop where
  wholeLines : WholeLines text
  after : Mode.code.after text = .code

theorem Block.lines {braces : Int} {text : List Char} (block : Block braces text) : Lines text :=
  ⟨block.wholeLines, block.reads⟩

theorem Neat.lines {text : List Char} (neat : Neat text) : Lines (text ++ ['\n']) where
  wholeLines := .inr List.getLast?_concat
  after := by
    rw [Mode.after_append, neat.reads.after]
    rfl

namespace Lines

theorem nil : Lines [] := ⟨.inl rfl, rfl⟩

theorem append {first second : List Char} (left : Lines first) (right : Lines second) :
    Lines (first ++ second) :=
  ⟨left.wholeLines.append right.wholeLines, by rw [Mode.after_append, left.after, right.after]⟩

/-- The end of a line outside of comments is kept. -/
theorem kept {text : List Char} (lines : Lines text) : WholeLines (Mode.code.kept text) := by
  rcases lines.wholeLines with rfl | ends
  · exact .inl rfl
  · obtain ⟨front, rfl⟩ := List.getLast?_eq_some_iff.mp ends
    have closed := lines.after
    rw [Mode.after_append] at closed
    rw [Mode.kept_append]
    right
    cases within : Mode.code.after front with
    | code | slash | line | string | escape => simp [Mode.kept, Mode.output]
    | block | star =>
        rw [within] at closed
        cases closed

theorem tokenSequence {text : List Char} (lines : Lines text) :
    Cpp.tokenSequence text = lexemes (Mode.code.kept text) := by
  rw [Cpp.tokenSequence, Reads.withoutComments ⟨lines.after, rfl⟩]

theorem tokenSequence_append {first second : List Char} (left : Lines first) (right : Lines second) :
    Cpp.tokenSequence (first ++ second) = Cpp.tokenSequence first ++ Cpp.tokenSequence second := by
  rw [(left.append right).tokenSequence, left.tokenSequence, right.tokenSequence, Mode.kept_append,
    left.after, lexemes_append left.kept]

end Lines

/-- Two texts of whole lines with the same tokens. -/
structure SameTokens (first second : List Char) : Prop where
  left : Lines first
  right : Lines second
  tokens : tokenSequence first = tokenSequence second

namespace SameTokens

theorem refl {text : List Char} (lines : Lines text) : SameTokens text text := ⟨lines, lines, rfl⟩

theorem symm {first second : List Char} (same : SameTokens first second) : SameTokens second first :=
  ⟨same.right, same.left, same.tokens.symm⟩

theorem trans {first second third : List Char} (same : SameTokens first second)
    (same' : SameTokens second third) : SameTokens first third :=
  ⟨same.left, same'.right, same.tokens.trans same'.tokens⟩

theorem append {first second first' second' : List Char} (same : SameTokens first second)
    (same' : SameTokens first' second') : SameTokens (first ++ first') (second ++ second') :=
  ⟨same.left.append same'.left, same.right.append same'.right, by
    rw [same.left.tokenSequence_append same'.left, same.right.tokenSequence_append same'.right,
      same.tokens, same'.tokens]⟩

/-- A comment on lines of its own has no tokens. -/
theorem of_reads {text out : List Char} (whole : WholeLines text) (reads : Reads text out)
    (spaces : ∀ c ∈ out, isSpace c = true) : SameTokens text [] := by
  have lines : Lines text := ⟨whole, reads.after⟩
  refine ⟨lines, .nil, ?_⟩
  rw [lines.tokenSequence, Lines.nil.tokenSequence, reads.kept, lexemes_eq_nil_iff.mpr spaces]
  exact lexemes_nil.symm

end SameTokens

end Cpp
