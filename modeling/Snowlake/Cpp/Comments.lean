import Mathlib.Data.List.Infix

/-! # Comments of C++

What a text says without its comments, read one character after the other.  A
comment leaves a space in its place; it is what stands between its delimiters,
with no lines joined before.  Strings are kept with what looks like a comment in
them; they end on their line.  Character literals and raw strings are not read
as such: the synthesizer writes none.
-/

namespace Cpp

/-- Where a reader stands. -/
inductive Mode where
  | code
  /-- Behind a slash that may begin a comment. -/
  | slash
  | line
  | block
  /-- Behind a star that may end a block comment. -/
  | star
  | string
  /-- Behind a backslash in a string. -/
  | escape
  deriving Repr, DecidableEq

namespace Mode

def next : Mode → Char → Mode
  | code, c => if c = '/' then slash else if c = '"' then string else code
  | slash, c =>
      if c = '/' then line else if c = '*' then block else if c = '"' then string else code
  | line, c => if c = '\n' then code else line
  | block, c => if c = '*' then star else block
  | star, c => if c = '/' then code else if c = '*' then star else block
  | string, c =>
      if c = '"' then code else if c = '\\' then escape else if c = '\n' then code else string
  | escape, c => if c = '\n' then code else string

/-- What a character adds to the text without comments; a slash is held back
until the next character tells what it is. -/
def output : Mode → Char → List Char
  | code, c => if c = '/' then [] else [c]
  | slash, c => if c = '/' ∨ c = '*' then [' '] else ['/', c]
  | line, c => if c = '\n' then [c] else []
  | block, _ | star, _ => []
  | string, c | escape, c => [c]

/-- Where the reader stands behind a text. -/
def after (mode : Mode) (text : List Char) : Mode := text.foldl next mode

/-- What the reader keeps of a text. -/
def kept : Mode → List Char → List Char
  | _, [] => []
  | mode, c :: rest => mode.output c ++ kept (mode.next c) rest

@[simp] theorem after_nil (mode : Mode) : mode.after [] = mode := rfl

theorem after_cons (mode : Mode) (c : Char) (rest : List Char) :
    mode.after (c :: rest) = (mode.next c).after rest := rfl

theorem after_append (mode : Mode) (first second : List Char) :
    mode.after (first ++ second) = (mode.after first).after second :=
  List.foldl_append

theorem kept_append (mode : Mode) (first second : List Char) :
    mode.kept (first ++ second) = mode.kept first ++ (mode.after first).kept second := by
  induction first generalizing mode with
  | nil => rfl
  | cons c rest ih => rw [List.cons_append, kept, kept, ih, after_cons, List.append_assoc]

end Mode

/-- A text without its comments. -/
def withoutComments (text : List Char) : List Char :=
  Mode.code.kept text ++ if Mode.code.after text = .slash then ['/'] else []

/-- From code to code the reader keeps `out` of `text`. -/
structure Reads (text out : List Char) : Prop where
  after : Mode.code.after text = .code
  kept : Mode.code.kept text = out

namespace Reads

theorem nil : Reads [] [] := ⟨rfl, rfl⟩

theorem append {first second out out' : List Char} (left : Reads first out) (right : Reads second out') :
    Reads (first ++ second) (out ++ out') := by
  constructor
  · rw [Mode.after_append, left.after, right.after]
  · rw [Mode.kept_append, left.after, left.kept, right.kept]

theorem withoutComments {text out : List Char} (reads : Reads text out) :
    withoutComments text = out := by
  rw [Cpp.withoutComments, reads.after, reads.kept]
  simp

end Reads

/-- A character that begins no comment and no string. -/
def isPlain (c : Char) : Bool := c != '/' && c != '"'

theorem reads_plain {text : List Char} (plain : ∀ c ∈ text, isPlain c = true) : Reads text text := by
  induction text with
  | nil => exact .nil
  | cons c rest ih =>
      have first := plain c List.mem_cons_self
      simp only [isPlain, Bool.and_eq_true, bne_iff_ne, ne_eq] at first
      have later := ih fun other member => plain other (List.mem_cons_of_mem _ member)
      constructor
      · rw [Mode.after_cons, Mode.next, if_neg first.1, if_neg first.2, later.after]
      · rw [Mode.kept, Mode.next, if_neg first.1, if_neg first.2, later.kept, Mode.output, if_neg first.1]
        rfl

/-- A string without escapes. -/
theorem reads_string {body : List Char}
    (inside : ∀ c ∈ body, c ≠ '"' ∧ c ≠ '\\' ∧ c ≠ '\n') :
    Reads ('"' :: (body ++ ['"'])) ('"' :: (body ++ ['"'])) := by
  have through : Mode.string.after body = .string ∧ Mode.string.kept body = body := by
    induction body with
    | nil => exact ⟨rfl, rfl⟩
    | cons c rest ih =>
        obtain ⟨noQuote, noEscape, noNewline⟩ := inside c List.mem_cons_self
        obtain ⟨after, kept⟩ := ih fun other member => inside other (List.mem_cons_of_mem _ member)
        constructor
        · rw [Mode.after_cons, Mode.next, if_neg noQuote, if_neg noEscape, if_neg noNewline, after]
        · rw [Mode.kept, Mode.next, if_neg noQuote, if_neg noEscape, if_neg noNewline, kept]
          rfl
  have opened : Mode.code.next '"' = .string := rfl
  constructor
  · rw [Mode.after_cons, opened, Mode.after_append, through.1]
    rfl
  · rw [Mode.kept, opened, Mode.kept_append, through.1, through.2]
    rfl

theorem reads_lineComment {body : List Char} (oneLine : '\n' ∉ body) :
    Reads ('/' :: '/' :: (body ++ ['\n'])) [' ', '\n'] := by
  have through : Mode.line.after body = .line ∧ Mode.line.kept body = [] := by
    induction body with
    | nil => exact ⟨rfl, rfl⟩
    | cons c rest ih =>
        have noNewline : c ≠ '\n' := fun same => oneLine (same ▸ List.mem_cons_self)
        obtain ⟨after, kept⟩ := ih fun member => oneLine (List.mem_cons_of_mem _ member)
        constructor
        · rw [Mode.after_cons, Mode.next, if_neg noNewline, after]
        · rw [Mode.kept, Mode.next, if_neg noNewline, kept, Mode.output, if_neg noNewline]
          rfl
  have opened : (Mode.code.next '/').next '/' = .line := rfl
  constructor
  · rw [Mode.after_cons, Mode.after_cons, opened, Mode.after_append, through.1]
    rfl
  · rw [Mode.kept, Mode.kept, opened, Mode.kept_append, through.1, through.2]
    rfl

/-- The reader is in a block comment. -/
def Mode.inBlock (mode : Mode) : Bool := mode = .block || mode = .star

/-- A block comment goes on up to the characters that end it. -/
theorem inBlock_of_noEnd {text : List Char} (noEnd : ¬ ['*', '/'] <:+: text) {mode : Mode}
    (inBlock : mode = .block ∨ mode = .star ∧ text.head? ≠ some '/') :
    (mode.after text).inBlock = true ∧ mode.kept text = [] := by
  induction text generalizing mode with
  | nil => rcases inBlock with rfl | ⟨rfl, -⟩ <;> exact ⟨rfl, rfl⟩
  | cons c rest ih =>
      have noEnd' : ¬ ['*', '/'] <:+: rest := fun inside =>
        noEnd (inside.trans (List.suffix_cons c rest).isInfix)
      have silent : mode.output c = [] := by
        rcases inBlock with rfl | ⟨rfl, -⟩ <;> rfl
      rw [Mode.after_cons, Mode.kept, silent, List.nil_append]
      refine ih noEnd' ?_
      by_cases isStar : c = '*'
      · subst isStar
        refine .inr ⟨?_, fun slash => noEnd ?_⟩
        · rcases inBlock with rfl | ⟨rfl, -⟩ <;> rfl
        · obtain ⟨rest, rfl⟩ := List.head?_eq_some_iff.mp slash
          exact (List.prefix_append ['*', '/'] rest).isInfix
      · left
        rcases inBlock with rfl | ⟨rfl, noSlash⟩
        · rw [Mode.next, if_neg isStar]
        · have notSlash : c ≠ '/' := fun same => noSlash (congrArg some same)
          rw [Mode.next, if_neg notSlash, if_neg isStar]

theorem noEnd_of_noSlash {text : List Char} (noSlash : '/' ∉ text) : ¬ ['*', '/'] <:+: text :=
  fun inside => noSlash (inside.subset (by simp))

/-- White space in a block comment is passed over. -/
theorem block_spaces {spaces : List Char} (blank : ∀ c ∈ spaces, c = ' ') :
    Mode.block.after spaces = .block ∧ Mode.block.kept spaces = [] := by
  induction spaces with
  | nil => exact ⟨rfl, rfl⟩
  | cons c rest ih =>
      obtain rfl := blank c List.mem_cons_self
      exact ih fun other member => blank other (List.mem_cons_of_mem _ member)

/-- A comment in the layout of a documentation block. -/
theorem reads_commentBlock {spaces text : List Char} (blank : ∀ c ∈ spaces, c = ' ')
    (inside : (Mode.block.after text).inBlock = true) (silent : Mode.block.kept text = []) :
    Reads (spaces ++ ("/**\n".toList ++ (spaces ++ (" * ".toList ++ (text ++ ("\n".toList ++
      (spaces ++ " */\n".toList))))))) (spaces ++ [' ', '\n']) := by
  have plain : ∀ c ∈ spaces, isPlain c = true := fun c member => blank c member ▸ rfl
  have opened : Mode.code.after "/**\n".toList = .block ∧ Mode.code.kept "/**\n".toList = [' '] := by
    decide
  have starred : Mode.block.after " * ".toList = .block ∧ Mode.block.kept " * ".toList = [] := by decide
  have newline : ∀ mode : Mode, mode.inBlock = true →
      mode.after "\n".toList = .block ∧ mode.kept "\n".toList = [] := by
    intro mode inside
    cases mode with
    | block => decide
    | star => decide
    | code | slash | line | string | escape => cases inside
  have closed : Mode.block.after " */\n".toList = .code ∧ Mode.block.kept " */\n".toList = ['\n'] := by
    decide
  obtain ⟨afterLine, keptLine⟩ := newline _ inside
  obtain ⟨afterSpaces, keptSpaces⟩ := block_spaces blank
  refine (reads_plain plain).append ⟨?_, ?_⟩
  · simp only [Mode.after_append, opened.1, afterSpaces, starred.1, afterLine, closed.1]
  · simp only [Mode.kept_append, opened, afterSpaces, keptSpaces, starred, silent, afterLine, keptLine,
      closed.2, List.nil_append, List.cons_append]

end Cpp
