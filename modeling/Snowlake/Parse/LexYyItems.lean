import Mathlib.Data.List.GetD
import Snowlake.Lib.Lookup
import Snowlake.Lib.Scanner
import Snowlake.Parse.LexYy
import Snowlake.Parse.Literals

/-! # What the states of the scanner mean

Every state of the tables stands for rules that the text up to it is in the middle
of.  The tables do what one step of these rules does, so they find the longest
match of the rules of `lexer.ll`.
-/

namespace Snowlake

open MaximalMunch Pattern

namespace LexYy

/-! ## Classes -/

/-- The class of a character; that of a zero is 1, as in `yy_get_previous_state`. -/
def classOf (c : Char) : ℕ := if c = '\x00' then 1 else yy_ec.getD c.toNat 1

def isLetter (yy_c : ℕ) : Bool := yy_c == 18 || yy_c == 21 || decide (22 ≤ yy_c ∧ yy_c ≤ 44)

def isDigit (yy_c : ℕ) : Bool := yy_c == 12 || yy_c == 13

/-- The classes of more than one character. -/
def shared : List ℕ := [1, 2, 13, 18]

def classes : List ℕ := List.range' 1 46

theorem yy_ec_exact : yy_ec.length = 256 ∧
    ∀ code < 256, (if code = 0 then 1 else yy_ec.getD code 1) ∈ classes ∧
      (yy_ec.getD code 1 ∈ shared ∨ yy_ec.idxOf (yy_ec.getD code 1) = code) := by
  decide +kernel

theorem length_yy_ec : yy_ec.length = 256 := yy_ec_exact.1

theorem classOf_large {c : Char} (large : 256 ≤ c.toNat) : classOf c = 1 := by
  have nonzero : c ≠ '\x00' := by
    rintro rfl
    exact absurd large (by decide)
  rw [classOf, if_neg nonzero, List.getD_eq_default _ _ (length_yy_ec ▸ large)]

/-- A property of characters is one of classes if it is for the first 256. -/
theorem eq_of_classOf (ofChar : Char → Bool) (ofClass : ℕ → Bool)
    (small : ∀ code < 256, ofChar (Char.ofNat code) = ofClass (classOf (Char.ofNat code)))
    (large : ∀ c : Char, 256 ≤ c.toNat → ofChar c = ofClass 1) (c : Char) :
    ofChar c = ofClass (classOf c) := by
  rcases Nat.lt_or_ge c.toNat 256 with inTable | beyond
  · have same := small c.toNat inTable
    rwa [Char.ofNat_toNat] at same
  · rw [classOf_large beyond]
    exact large c beyond

theorem classOf_mem (c : Char) : classOf c ∈ classes := by
  rcases Nat.lt_or_ge c.toNat 256 with inTable | large
  · have isMember := (yy_ec_exact.2 c.toNat inTable).1
    have zero_iff : c = '\x00' ↔ c.toNat = 0 := by
      rw [← Char.toNat_inj]
      rfl
    rwa [classOf, if_congr zero_iff rfl rfl]
  · rw [classOf_large large]
    decide

theorem idxOf_classOf {c : Char} (single : classOf c ∉ shared) : yy_ec.idxOf (classOf c) = c.toNat := by
  have small : c.toNat < 256 := by
    by_contra large
    rw [classOf_large (by omega)] at single
    exact single (by decide)
  have nonzero : c ≠ '\x00' := by
    rintro rfl
    exact single (by decide)
  rw [classOf, if_neg nonzero] at single ⊢
  exact (yy_ec_exact.2 c.toNat small).2.resolve_left single

theorem eq_of_class {c other : Char} (single : classOf c ∉ shared) (same : classOf other = classOf c) :
    other = c := by
  have codes : other.toNat = c.toNat := by
    rw [← idxOf_classOf single, ← same, idxOf_classOf (same ▸ single)]
  rw [← Char.ofNat_toNat other, codes, Char.ofNat_toNat]

/-! ## The certificate -/

def numbers : List ℕ := List.range' 1 44

/-- The rules of the lexer, by their numbers. -/
def rules : List (Pattern Char × ℕ) := (Lexer.rules.map Prod.fst).zip numbers

/-- The automaton that the tables are, for classes from 1 on.  A table that is read
outside leads to the state 0, to which no text leads. -/
def automaton : Scanner ℕ ℕ ℕ where
  start := 1
  next state yy_c := some ((next 4 state yy_c).getD 0) |>.filter (· ≠ jam)
  accept state := yy_accept[state]?.filter (· ≠ 0)

/-- The rules that each state is in the middle of, with the states of their automata. -/
def partials : Lookup (List (ℕ × ℕ)) := .ofList [
  [], [], [], [], [(44, 1)], [(42, 1), (44, 1)], [(43, 1)], [(22, 1), (44, 1)], [(1, 1), (11, 1), (13, 1),
  (15, 1), (17, 1), (19, 1), (21, 1), (23, 1), (25, 1), (27, 1), (29, 1), (31, 1), (34, 1), (37, 1),
  (40, 1), (44, 1)], [(14, 1), (44, 1)], [(38, 1), (44, 1)], [(39, 1), (44, 1)], [(30, 1), (44, 1)],
  [(28, 1), (41, 1), (44, 1)], [(14, 4), (44, 1)], [(16, 1), (44, 1)], [(18, 1), (44, 1)], [(24, 1),
  (26, 1), (44, 1)], [(20, 1), (44, 1)], [(12, 1), (44, 1)], [(32, 1), (44, 1)], [(33, 1), (44, 1)],
  [(5, 1), (12, 1), (44, 1)], [(4, 1), (12, 1), (44, 1)], [(2, 1), (6, 1), (12, 1), (44, 1)], [(3, 1),
  (8, 1), (12, 1), (44, 1)], [(9, 1), (10, 1), (12, 1), (44, 1)], [(7, 1), (12, 1), (44, 1)], [(35, 1),
  (44, 1)], [(36, 1), (44, 1)], [(42, 1)], [(43, 1)], [(22, 2)], [(15, 2), (29, 2), (34, 2)], [(27, 2)],
  [(19, 2), (40, 2)], [(11, 2), (13, 2)], [(1, 2)], [(23, 2)], [(21, 2), (25, 2)], [(37, 2)], [(17, 2),
  (31, 2)], [(14, 2)], [(14, 3)], [(41, 2)], [(14, 4)], [(26, 2)], [(12, 1)], [(5, 2), (12, 1)], [(4, 2),
  (12, 1)], [(6, 2), (12, 1)], [(2, 2), (12, 1)], [(3, 2), (8, 2), (12, 1)], [(9, 2), (10, 2), (12, 1)],
  [(7, 2), (12, 1)], [(15, 3), (29, 3)], [(34, 3)], [(27, 3)], [(40, 3)], [(19, 3)], [(11, 3)], [(13, 3)],
  [(1, 3)], [(23, 3)], [(21, 3), (25, 3)], [(37, 3)], [(17, 3)], [(31, 3)], [(14, 4)], [(5, 3), (12, 1)],
  [(4, 3), (12, 1)], [(6, 3), (12, 1)], [(2, 3), (12, 1)], [(3, 3), (12, 1)], [(8, 3), (12, 1)], [(9, 3),
  (12, 1)], [(10, 3), (12, 1)], [(7, 3), (12, 1)], [(15, 4)], [(29, 4)], [(34, 4)], [(27, 4)], [(40, 4)],
  [(19, 4)], [(11, 4)], [(13, 4)], [(1, 4)], [(23, 4)], [(25, 4)], [(21, 4)], [(37, 4)], [(17, 4)],
  [(31, 4)], [(5, 4), (12, 1)], [(4, 4), (12, 1)], [(6, 4), (12, 1)], [(2, 4), (12, 1)], [(3, 4), (12, 1)],
  [(8, 4), (12, 1)], [(9, 4), (12, 1)], [(10, 4), (12, 1)], [(7, 4), (12, 1)], [(15, 5)], [(29, 5)],
  [(34, 5)], [(40, 5)], [(19, 5)], [(11, 5)], [(13, 5)], [(1, 5)], [(23, 5)], [(25, 5)], [(21, 5)],
  [(37, 5)], [(17, 5)], [(31, 5)], [(5, 5), (12, 1)], [(4, 5), (12, 1)], [(6, 5), (12, 1)], [(2, 5),
  (12, 1)], [(3, 5), (12, 1)], [(8, 5), (12, 1)], [(9, 5), (12, 1)], [(10, 5), (12, 1)], [(7, 5), (12, 1)],
  [(15, 6)], [(29, 6)], [(34, 6)], [(40, 6)], [(19, 6)], [(11, 6)], [(13, 6)], [(1, 6)], [(23, 6)],
  [(25, 6)], [(21, 6)], [(37, 6)], [(17, 6)], [(31, 6)], [(5, 6), (12, 1)], [(4, 6), (12, 1)], [(6, 6),
  (12, 1)], [(3, 6), (12, 1)], [(8, 6), (12, 1)], [(9, 6), (12, 1)], [(10, 6), (12, 1)], [(34, 7)],
  [(40, 7)], [(11, 7)], [(13, 7)], [(1, 7)], [(23, 7)], [(25, 7)], [(21, 7)], [(37, 7)], [(17, 7)],
  [(31, 7)], [(5, 7), (12, 1)], [(4, 7), (12, 1)], [(6, 7), (12, 1)], [(3, 7), (12, 1)], [(8, 7), (12, 1)],
  [(9, 7), (12, 1)], [(10, 7), (12, 1)], [(34, 8)], [(40, 8)], [(11, 8)], [(13, 8)], [(1, 8)], [(23, 8)],
  [(25, 8)], [(21, 8)], [(37, 8)], [(17, 8)], [(31, 8)], [(5, 8), (12, 1)], [(4, 8), (12, 1)], [(3, 8),
  (12, 1)], [(9, 8), (12, 1)], [(10, 8), (12, 1)], [(34, 9)], [(40, 9)], [(11, 9)], [(1, 9)], [(23, 9)],
  [(25, 9)], [(21, 9)], [(37, 9)], [(17, 9)], [(31, 9)], [(5, 9), (12, 1)], [(4, 9), (12, 1)], [(3, 9),
  (12, 1)], [(10, 9), (12, 1)], [(34, 10)], [(11, 10)], [(23, 10)], [(25, 10)], [(21, 10)], [(37, 10)],
  [(17, 10)], [(31, 10)], [(4, 10), (12, 1)], [(10, 10), (12, 1)], [(34, 11)], [(11, 11)], [(25, 11)],
  [(37, 11)], [(31, 11)], [(4, 11), (12, 1)], [(10, 11), (12, 1)], [(34, 12)], [(11, 12)], [(25, 12)],
  [(37, 12)], [(31, 12)], [(34, 13)], [(25, 13)], [(31, 13)], [(31, 14)], [(31, 15)], [(31, 16)]]

/-- The classes of the texts of the literal rules. -/
def codes : Lookup (List ℕ) := .ofList [
  [5, 31, 26, 44, 43, 35, 38, 25, 39], [28, 38, 35, 41, 36], [30, 34, 27, 26, 38, 26, 34, 24, 26],
  [26, 34, 42, 30, 38, 35, 34, 33, 26, 34, 40], [22, 38, 28, 41, 33, 26, 34, 40, 39],
  [28, 32, 35, 23, 22, 32, 39], [43, 29, 30, 32, 26], [30, 34, 38, 22, 34, 28, 26],
  [36, 38, 26, 33, 30, 39, 26, 39], [36, 38, 35, 36, 35, 39, 30, 40, 30, 35, 34],
  [5, 30, 25, 26, 34, 40, 30, 27, 30, 26, 38, 39], [], [5, 30, 34, 40, 26, 28, 26, 38], [],
  [5, 24, 35, 32, 35, 34], [14], [5, 39, 26, 33, 30, 24, 35, 32, 35, 34], [15], [5, 26, 37, 41, 22, 32],
  [17], [5, 34, 35, 40, 21, 26, 37, 41, 22, 32], [4, 17], [5, 32, 26, 39, 39, 21, 40, 29, 22, 34], [16],
  [5, 34, 35, 21, 33, 35, 38, 26, 21, 40, 29, 22, 34], [16, 17], [5, 25, 35, 40], [11],
  [5, 24, 35, 33, 33, 22], [9], [5, 39, 37, 22, 41, 38, 26, 21, 23, 38, 22, 24, 31, 26, 40, 39], [19], [20],
  [5, 24, 41, 38, 32, 44, 21, 23, 38, 22, 24, 26, 39], [45], [46],
  [5, 36, 22, 38, 26, 34, 40, 29, 26, 39, 26, 39], [7], [8], [5, 26, 32, 32, 30, 36, 39, 30, 39], [11, 11]]

/-- Behind a quote, two quotes, the quoted sign but for its last quote, and the
whole sign or a digit. -/
def integer : Recogniser ℕ where
  next
    | 0, yy_c => if yy_c = 6 then some 1 else if isDigit yy_c then some 4 else none
    | 1, yy_c => if yy_c = 6 then some 2 else if yy_c = 10 then some 3 else none
    | 2, yy_c => if yy_c = 6 then some 2 else if isDigit yy_c then some 4 else none
    | 3, yy_c => if yy_c = 6 then some 4 else none
    | _, yy_c => if isDigit yy_c then some 4 else none
  accepts state := decide (state = 0 ∨ state = 2 ∨ state = 4)

/-- The automaton of a rule. -/
def recogniser : ℕ → Recogniser ℕ
  | 12 => .sequence isLetter fun yy_c => isLetter yy_c || isDigit yy_c
  | 14 => integer
  | 42 => .sequence (· == 2) (· == 2)
  | 43 => .sequence (· == 3) (· == 3)
  | 44 => .sequence (· != 3) fun _ => false
  | number => .literal ((codes.get (number - 1)).getD [])

def items (state : ℕ) : List (ℕ × ℕ) :=
  if state = 1 then numbers.map (·, 0) else (partials.get state).getD []

/-- The states that text leads to. -/
def states : List ℕ := 1 :: List.range' 4 218

def inside (state : ℕ) : Bool := state == 1 || decide (4 ≤ state ∧ state < jam)

/-! ## The automata of the rules -/

theorem not_of_large {c : Char} (large : 256 ≤ c.toNat) {ofChar : Char → Bool}
    (bounded : ∀ c, ofChar c = true → c ≤ 'z') : ofChar c = false := by
  rw [← Bool.not_eq_true]
  intro accepted
  have below : c.toNat ≤ 'z'.toNat := bounded c accepted
  exact absurd (Nat.le_trans large below) (by decide)

/-- The classes of letters, digits and blanks, in the table. -/
theorem kind_of_code : ∀ code < 256,
    Lexer.isIdentifierStart (Char.ofNat code) = isLetter (classOf (Char.ofNat code)) ∧
      Lexer.isDigit (Char.ofNat code) = isDigit (classOf (Char.ofNat code)) ∧
      Lexer.isBlank (Char.ofNat code) = (classOf (Char.ofNat code) == 2) := by
  decide +kernel

theorem isIdentifierStart_eq (c : Char) : Lexer.isIdentifierStart c = isLetter (classOf c) := by
  refine eq_of_classOf _ _ (fun code inTable => (kind_of_code code inTable).1)
    (fun c large => not_of_large large fun c accepted => ?_) c
  simp only [Lexer.isIdentifierStart, Bool.or_eq_true, Bool.and_eq_true, decide_eq_true_eq,
    beq_iff_eq] at accepted
  rcases accepted with (rfl | lower) | upper
  · decide
  · exact lower.2
  · exact Char.le_trans upper.2 (by decide)

theorem isDigit_eq (c : Char) : Lexer.isDigit c = isDigit (classOf c) := by
  refine eq_of_classOf _ _ (fun code inTable => (kind_of_code code inTable).2.1)
    (fun c large => not_of_large large fun c accepted => ?_) c
  simp only [Lexer.isDigit, Bool.and_eq_true, decide_eq_true_eq] at accepted
  exact Char.le_trans accepted.2 (by decide)

theorem isBlank_eq (c : Char) : Lexer.isBlank c = (classOf c == 2) := by
  refine eq_of_classOf Lexer.isBlank (· == 2) (fun code inTable => (kind_of_code code inTable).2.2)
    (fun c large => not_of_large large fun c accepted => ?_) c
  simp only [Lexer.isBlank, Bool.or_eq_true, beq_iff_eq] at accepted
  rcases accepted with rfl | rfl <;> decide

theorem isNewline_eq (c : Char) : (c == '\n') = (classOf c == 3) := by
  rw [Bool.eq_iff_iff, beq_iff_eq, beq_iff_eq]
  exact ⟨congrArg classOf, eq_of_class (c := '\n') (by decide)⟩

/-- The classes of a literal rule are those of its text, which they spell. -/
def spells (number : ℕ) (text : List Char) : Bool :=
  decide (codes.get (number - 1) = some (text.map classOf)) && text.all fun c => !shared.contains (classOf c)

theorem literal_recognises {number : ℕ} {text : List Char}
    (isLiteral : recogniser number = .literal ((codes.get (number - 1)).getD []))
    (spelled : spells number text = true) : (recogniser number).Recognises classOf (literal text) := by
  rw [spells, Bool.and_eq_true, decide_eq_true_eq, List.all_eq_true] at spelled
  rw [isLiteral, spelled.1]
  refine Recogniser.literal_recognises fun c member other same => ?_
  have single := spelled.2 c member
  exact eq_of_class (by simpa using single) same

/-! ### Integers -/

/-- What stands behind two quotes. -/
def unquoted (text : List Char) : Bool := (text.dropWhile (· == '\'')).all Lexer.isDigit

theorem unquoted_iff (text : List Char) :
    unquoted text = true ↔
      ∃ count digits, text = List.replicate count '\'' ++ digits ∧ digits.all Lexer.isDigit = true := by
  constructor
  · intro isUnquoted
    have quotes : text.takeWhile (· == '\'') = List.replicate (text.takeWhile (· == '\'')).length '\'' :=
      List.eq_replicate_length.mpr fun c member => by simpa using List.mem_takeWhile_imp member
    exact ⟨_, _, by rw [← quotes, List.takeWhile_append_dropWhile], isUnquoted⟩
  · rintro ⟨count, digits, rfl, allDigits⟩
    induction count with
    | zero =>
        cases digits with
        | nil => rfl
        | cons digit digits =>
            rw [List.all_cons, Bool.and_eq_true] at allDigits
            have notQuote : (digit == '\'') = false := by
              rw [beq_eq_false_iff_ne]
              rintro rfl
              exact absurd allDigits.1 (by decide)
            simp [unquoted, notQuote, allDigits.1, allDigits.2]
    | succ count ih => simpa [unquoted, List.replicate_succ] using ih

theorem matches_sign_iff (sign : List Char) :
    Matches (opt (.alt (.seq (plus (.one (· == '\''))) (.one (· == '\''))) (literal ['\'', '-', '\'']))) sign ↔
      sign = [] ∨ (∃ count, sign = '\'' :: '\'' :: List.replicate count '\'') ∨ sign = ['\'', '-', '\''] := by
  rw [opt, matches_alt_iff, matches_alt_iff, matches_literal_iff]
  refine or_congr ⟨?_, ?_⟩ (or_congr_left ⟨?_, ?_⟩)
  · rintro ⟨⟩
    rfl
  · rintro rfl
    exact .empty
  · intro matched
    obtain ⟨run, last, rfl, matchedRun, matchedLast⟩ := matches_seq_iff.mp matched
    obtain ⟨c, isQuote, rfl⟩ := matches_one_iff.mp matchedLast
    obtain rfl : c = '\'' := by simpa using isQuote
    cases run with
    | nil => exact absurd ((matches_nil_iff _).mp matchedRun) (by decide)
    | cons first run =>
        obtain ⟨isFirst, isRun⟩ := matches_run_cons_iff.mp matchedRun
        obtain rfl : first = '\'' := by simpa using isFirst
        obtain ⟨count, rfl⟩ : ∃ count, run = List.replicate count '\'' :=
          ⟨_, List.eq_replicate_length.mpr fun c member => by simpa using isRun c member⟩
        refine ⟨count, ?_⟩
        rw [List.cons_append, ← List.replicate_succ', List.replicate_succ]
  · rintro ⟨count, rfl⟩
    have run : Matches (plus (.one (· == '\''))) ('\'' :: List.replicate count '\'') :=
      matches_run_cons_iff.mpr ⟨rfl, fun c member => by simpa using List.eq_of_mem_replicate member⟩
    have whole : '\'' :: '\'' :: List.replicate count '\'' = ('\'' :: List.replicate count '\'') ++ ['\''] := by
      rw [List.cons_append, ← List.replicate_succ', List.replicate_succ]
    rw [whole]
    exact .seq run (.one rfl)

theorem matches_digits_iff (text : List Char) :
    Matches (.alt (.one (· == '0')) (.star (.one Lexer.isDigit))) text ↔ text.all Lexer.isDigit = true := by
  rw [matches_alt_iff, List.all_eq_true]
  constructor
  · rintro (zero | digits)
    · obtain ⟨c, isZero, rfl⟩ := matches_one_iff.mp zero
      obtain rfl : c = '0' := by simpa using isZero
      exact List.forall_mem_singleton.mpr rfl
    · exact digits.uses
  · exact fun digits => .inr (matches_star_one digits)

theorem matches_integer_iff (text : List Char) :
    Matches Lexer.integerPattern text ↔
      text.all Lexer.isDigit = true ∨ (∃ rest, text = '\'' :: '\'' :: rest ∧ unquoted rest = true) ∨
        ∃ rest, text = '\'' :: '-' :: '\'' :: rest ∧ rest.all Lexer.isDigit = true := by
  simp only [Lexer.integerPattern, matches_seq_iff, matches_sign_iff, matches_digits_iff, unquoted_iff]
  constructor
  · rintro ⟨_, digits, rfl, rfl | ⟨count, rfl⟩ | rfl, allDigits⟩
    · exact .inl allDigits
    · exact .inr (.inl ⟨_, rfl, count, digits, rfl, allDigits⟩)
    · exact .inr (.inr ⟨digits, rfl, allDigits⟩)
  · rintro (allDigits | ⟨_, rfl, count, digits, rfl, allDigits⟩ | ⟨digits, rfl, allDigits⟩)
    · exact ⟨[], text, rfl, .inl rfl, allDigits⟩
    · exact ⟨_, digits, rfl, .inr (.inl ⟨count, rfl⟩), allDigits⟩
    · exact ⟨_, digits, rfl, .inr (.inr rfl), allDigits⟩

/-- The integer automaton accepts from the state. -/
def integerFrom (state : ℕ) (text : List Char) : Bool :=
  (integer.run state (text.map classOf)).any integer.accepts

theorem integerFrom_cons (state : ℕ) (c : Char) (text : List Char) :
    integerFrom state (c :: text) =
      match integer.next state (classOf c) with
      | some next => integerFrom next text
      | none => false := by
  rw [integerFrom, List.map_cons, Recogniser.run_cons]
  cases integer.next state (classOf c) <;> rfl

theorem quote_iff (c : Char) : classOf c = 6 ↔ c = '\'' :=
  ⟨eq_of_class (c := '\'') (by decide), congrArg classOf⟩

theorem minus_iff (c : Char) : classOf c = 10 ↔ c = '-' :=
  ⟨eq_of_class (c := '-') (by decide), congrArg classOf⟩

theorem integerFrom_four (text : List Char) : integerFrom 4 text = text.all Lexer.isDigit := by
  induction text with
  | nil => rfl
  | cons c text ih =>
      rw [integerFrom_cons, List.all_cons, isDigit_eq, ← ih]
      simp only [integer]
      cases isDigit (classOf c) <;> rfl

theorem integerFrom_two (text : List Char) : integerFrom 2 text = unquoted text := by
  induction text with
  | nil => rfl
  | cons c text ih =>
      rw [integerFrom_cons]
      simp only [integer, quote_iff]
      by_cases isQuote : c = '\''
      · rw [if_pos isQuote]
        simpa [unquoted, isQuote] using ih
      · have notQuote : (c == '\'') = false := beq_eq_false_iff_ne.mpr isQuote
        rw [if_neg isQuote, unquoted, List.dropWhile_cons, notQuote, ← isDigit_eq]
        cases digit : Lexer.isDigit c <;> simp [integerFrom_four, digit]

theorem integerFrom_three_cons (c : Char) (text : List Char) :
    integerFrom 3 (c :: text) = true ↔ c = '\'' ∧ text.all Lexer.isDigit = true := by
  rw [integerFrom_cons, ← integerFrom_four]
  simp only [integer, quote_iff]
  by_cases isQuote : c = '\'' <;> simp [isQuote]

theorem integerFrom_one_cons (c : Char) (text : List Char) :
    integerFrom 1 (c :: text) = true ↔
      c = '\'' ∧ unquoted text = true ∨ c = '-' ∧ integerFrom 3 text = true := by
  rw [integerFrom_cons, ← integerFrom_two]
  simp only [integer, quote_iff, minus_iff]
  by_cases isQuote : c = '\''
  · simp [isQuote]
  · by_cases isMinus : c = '-' <;> simp [isQuote, isMinus]

theorem integer_recognises : integer.Recognises classOf Lexer.integerPattern := by
  intro text
  rw [Bool.eq_iff_iff, accepts_iff, matches_integer_iff]
  change _ ↔ integerFrom 0 text = true
  cases text with
  | nil => exact ⟨fun _ => rfl, fun _ => .inl rfl⟩
  | cons first rest =>
      rw [integerFrom_cons]
      simp only [integer, quote_iff]
      by_cases isQuote : first = '\''
      · obtain rfl := isQuote
        rw [if_pos rfl]
        cases rest with
        | nil => simp [integerFrom, Lexer.isDigit, Recogniser.run, integer]
        | cons second rest =>
            simp only [integerFrom_one_cons]
            cases rest with
            | nil => simp [Lexer.isDigit, integerFrom, Recogniser.run, integer]
            | cons third rest => simp [Lexer.isDigit, integerFrom_three_cons, and_assoc]
      · rw [if_neg isQuote, ← isDigit_eq]
        cases digit : Lexer.isDigit first <;> simp [isQuote, integerFrom_four, digit]

/-! ### All rules -/

theorem identifier_recognises :
    (Recogniser.sequence isLetter fun yy_c => isLetter yy_c || isDigit yy_c).Recognises classOf
      Lexer.identifierPattern :=
  Recogniser.sequence_recognises isIdentifierStart_eq fun c => by rw [isIdentifierStart_eq, isDigit_eq]

theorem recognises {rule : Pattern Char × ℕ} (member : rule ∈ rules) :
    (recogniser rule.2).Recognises classOf rule.1 := by
  have all : ∀ rule ∈ rules, (recogniser rule.2).Recognises classOf rule.1 := by
    simp only [rules, Lexer.rules, Lexer.tokenRules, Lexer.rule, numbers, List.range', List.map_cons,
      List.map_nil, List.cons_append, List.nil_append, List.zip_cons_cons, List.zip_nil_left,
      List.forall_mem_cons, Nat.reduceAdd]
    and_intros
    all_goals first
      | exact literal_recognises rfl (by decide +kernel)
      | exact integer_recognises
      | exact identifier_recognises
      | exact Recogniser.sequence_recognises isBlank_eq isBlank_eq
      | exact Recogniser.sequence_recognises isNewline_eq isNewline_eq
      | exact Recogniser.one_recognises fun c => congrArg not (isNewline_eq c)
      | exact List.forall_mem_nil _
  exact all rule member

/-! ## The check -/

section Trees

def yy_accept' : Lookup ℕ := .ofList yy_accept

def yy_meta' : Lookup ℕ := .ofList yy_meta

def yy_base' : Lookup ℕ := .ofList yy_base

def yy_def' : Lookup ℕ := .ofList yy_def

def yy_nxt' : Lookup ℕ := .ofList yy_nxt

def yy_chk' : Lookup ℕ := .ofList yy_chk

/-- `next`, with the tables as trees. -/
def next' : ℕ → ℕ → ℕ → Option ℕ
  | 0, _, _ => none
  | fuel + 1, state, yy_c => do
      let index := (← yy_base'.get state) + yy_c
      if (← yy_chk'.get index) = state then yy_nxt'.get index
      else
        let state ← yy_def'.get state
        if 223 ≤ state then next' fuel state (← yy_meta'.get yy_c) else next' fuel state yy_c

theorem next'_eq (fuel state yy_c : ℕ) : next' fuel state yy_c = next fuel state yy_c := by
  induction fuel generalizing state yy_c with
  | zero => rfl
  | succ fuel ih =>
      simp only [next', next, ih, yy_meta', yy_base', yy_def', yy_nxt', yy_chk', Lookup.get_ofList]

def automaton' : Scanner ℕ ℕ ℕ where
  start := 1
  next state yy_c := some ((next' 4 state yy_c).getD 0) |>.filter (· ≠ jam)
  accept state := (yy_accept'.get state).filter (· ≠ 0)

theorem automaton'_eq : automaton' = automaton := by
  simp only [automaton', automaton, next'_eq, yy_accept', Lookup.get_ofList]

/-- The tables do to the items what the rules do. -/
theorem check_states : states.all (automaton'.check recogniser items inside classes) = true := by
  decide +kernel

end Trees

theorem checked : automaton.Checked recogniser numbers items states classes := by
  rw [← automaton'_eq]
  refine .of_check (fun state isInside => ?_) List.mem_cons_self rfl check_states
  have bounds : state = 1 ∨ 4 ≤ state ∧ state < jam := by simpa [inside] using isInside
  rw [states, List.mem_cons, List.mem_range'_1]
  rw [jam] at bounds
  omega

end LexYy

end Snowlake
