import Mathlib.Data.List.Basic

/-! # Maximal munch

Regular expressions over any alphabet, the longest match of one at the start of
an input, and the scanner of a list of rules: it takes the rule with the longest
match, among these the earliest, and goes on behind the match.
-/

namespace MaximalMunch

variable {α β : Type}

/-! ## Patterns -/

inductive Pattern (α : Type) where
  | fail
  | empty
  | one (accepts : α → Bool)
  | seq (first second : Pattern α)
  | alt (left right : Pattern α)
  | star (pattern : Pattern α)

inductive Matches : Pattern α → List α → Prop
  | empty : Matches .empty []
  | one {accepts item} : accepts item = true → Matches (.one accepts) [item]
  | seq {first second left right} :
      Matches first left → Matches second right → Matches (.seq first second) (left ++ right)
  | altLeft {left right text} : Matches left text → Matches (.alt left right) text
  | altRight {left right text} : Matches right text → Matches (.alt left right) text
  | done {pattern} : Matches (.star pattern) []
  | again {pattern first rest} :
      Matches pattern first → Matches (.star pattern) rest → Matches (.star pattern) (first ++ rest)

namespace Pattern

/-- The sequence of the given items. -/
def literal [DecidableEq α] : List α → Pattern α
  | [] => .empty
  | item :: rest => .seq (.one fun other => decide (other = item)) (literal rest)

def plus (pattern : Pattern α) : Pattern α := .seq pattern (.star pattern)

def opt (pattern : Pattern α) : Pattern α := .alt .empty pattern

def nullable : Pattern α → Bool
  | .fail | .one _ => false
  | .empty | .star _ => true
  | .seq first second => first.nullable && second.nullable
  | .alt left right => left.nullable || right.nullable

/-- What is left to match behind `item`. -/
def derivative (item : α) : Pattern α → Pattern α
  | .fail | .empty => .fail
  | .one accepts => if accepts item then .empty else .fail
  | .seq first second =>
      if first.nullable then .alt (.seq (first.derivative item) second) (second.derivative item)
      else .seq (first.derivative item) second
  | .alt left right => .alt (left.derivative item) (right.derivative item)
  | .star pattern => .seq (pattern.derivative item) (.star pattern)

/-- Does the pattern match the whole text? -/
def accepts (pattern : Pattern α) (text : List α) : Bool :=
  (text.foldl (fun pattern item => pattern.derivative item) pattern).nullable

/-- The items a pattern may consume anywhere. -/
def uses : Pattern α → α → Bool
  | .fail, _ | .empty, _ => false
  | .one accepts, item => accepts item
  | .seq first second, item => first.uses item || second.uses item
  | .alt left right, item => left.uses item || right.uses item
  | .star pattern, item => pattern.uses item

end Pattern

open Pattern

theorem matches_nil_iff (pattern : Pattern α) : Matches pattern [] ↔ pattern.nullable = true := by
  constructor
  · generalize same : ([] : List α) = text
    intro matched
    induction matched with
    | empty | done => rfl
    | one => cases same
    | seq _ _ ihFirst ihSecond =>
        obtain ⟨rfl, rfl⟩ := List.append_eq_nil_iff.mp same.symm
        simp [nullable, ihFirst rfl, ihSecond rfl]
    | altLeft _ ih => simp [nullable, ih same]
    | altRight _ ih => simp [nullable, ih same]
    | again => rfl
  · intro isNullable
    induction pattern with
    | fail | one => cases isNullable
    | empty => exact .empty
    | seq first second ihFirst ihSecond =>
        simp only [nullable, Bool.and_eq_true] at isNullable
        exact .seq (ihFirst isNullable.1) (ihSecond isNullable.2)
    | alt left right ihLeft ihRight =>
        simp only [nullable, Bool.or_eq_true] at isNullable
        exact isNullable.elim (fun inLeft => .altLeft (ihLeft inLeft))
          fun inRight => .altRight (ihRight inRight)
    | star => exact .done

theorem matches_one_iff {accepts : α → Bool} {text : List α} :
    Matches (.one accepts) text ↔ ∃ item, accepts item = true ∧ text = [item] := by
  constructor
  · rintro ⟨⟩
    exact ⟨_, ‹_›, rfl⟩
  · rintro ⟨item, accepted, rfl⟩
    exact .one accepted

theorem matches_seq_iff {first second : Pattern α} {text : List α} :
    Matches (.seq first second) text ↔
      ∃ left right, text = left ++ right ∧ Matches first left ∧ Matches second right := by
  constructor
  · rintro ⟨⟩
    exact ⟨_, _, rfl, ‹_›, ‹_›⟩
  · rintro ⟨left, right, rfl, matchedFirst, matchedSecond⟩
    exact .seq matchedFirst matchedSecond

theorem matches_alt_iff {left right : Pattern α} {text : List α} :
    Matches (.alt left right) text ↔ Matches left text ∨ Matches right text := by
  constructor
  · rintro ⟨⟩
    · exact .inl ‹_›
    · exact .inr ‹_›
  · exact fun either => either.elim .altLeft .altRight

/-- A repetition that consumes something starts with a round that does. -/
theorem matches_star_cons {pattern : Pattern α} {item : α} {text : List α}
    (matched : Matches (.star pattern) (item :: text)) :
    ∃ left right, text = left ++ right ∧ Matches pattern (item :: left) ∧
      Matches (.star pattern) right := by
  generalize samePattern : Pattern.star pattern = starred at matched
  generalize sameText : item :: text = whole at matched
  induction matched with
  | empty | one | seq | altLeft | altRight => cases samePattern
  | done => cases sameText
  | @again _ first rest matchedFirst matchedRest _ ih =>
      cases samePattern
      cases first with
      | nil => exact ih rfl sameText
      | cons head left =>
          obtain ⟨rfl, rfl⟩ := List.cons.inj sameText
          exact ⟨left, rest, rfl, matchedFirst, matchedRest⟩

theorem matches_derivative_iff (pattern : Pattern α) (item : α) (text : List α) :
    Matches (pattern.derivative item) text ↔ Matches pattern (item :: text) := by
  induction pattern generalizing text with
  | fail => exact ⟨nofun, nofun⟩
  | empty => exact ⟨nofun, nofun⟩
  | one accepts =>
      rw [derivative, matches_one_iff]
      cases accepted : accepts item with
      | true =>
          constructor
          · rintro ⟨⟩
            exact ⟨item, accepted, rfl⟩
          · rintro ⟨_, _, same⟩
            obtain ⟨-, rfl⟩ := List.cons.inj same
            exact .empty
      | false =>
          constructor
          · nofun
          · rintro ⟨other, accepted', same⟩
            obtain ⟨rfl, -⟩ := List.cons.inj same
            simp [accepted] at accepted'
  | seq first second ihFirst ihSecond =>
      have split : Matches (.seq (first.derivative item) second) text ∨
            (first.nullable = true ∧ Matches (second.derivative item) text) ↔
          Matches (.seq first second) (item :: text) := by
        simp only [matches_seq_iff, ihFirst, ihSecond, ← matches_nil_iff]
        constructor
        · rintro (⟨left, right, rfl, matchedFirst, matchedSecond⟩ | ⟨matchedFirst, matchedSecond⟩)
          · exact ⟨item :: left, right, rfl, matchedFirst, matchedSecond⟩
          · exact ⟨[], item :: text, rfl, matchedFirst, matchedSecond⟩
        · rintro ⟨left, right, same, matchedFirst, matchedSecond⟩
          cases left with
          | nil =>
              obtain rfl : item :: text = right := same
              exact .inr ⟨matchedFirst, matchedSecond⟩
          | cons head left =>
              obtain ⟨rfl, rfl⟩ := List.cons.inj same
              exact .inl ⟨left, right, rfl, matchedFirst, matchedSecond⟩
      rw [← split, derivative]
      cases first.nullable with
      | true => simp only [if_true, matches_alt_iff, true_and]
      | false => simp
  | alt left right ihLeft ihRight => simp only [derivative, matches_alt_iff, ihLeft, ihRight]
  | star pattern ih =>
      simp only [derivative, matches_seq_iff, ih]
      constructor
      · rintro ⟨left, right, rfl, matched, rest⟩
        exact .again matched rest
      · exact matches_star_cons

theorem accepts_iff (pattern : Pattern α) (text : List α) :
    pattern.accepts text = true ↔ Matches pattern text := by
  induction text generalizing pattern with
  | nil => exact (matches_nil_iff pattern).symm
  | cons item text ih => exact (ih (pattern.derivative item)).trans (matches_derivative_iff ..)

/-- A match consumes only items the pattern uses. -/
theorem Matches.uses {pattern : Pattern α} {text : List α} (matched : Matches pattern text) :
    ∀ item ∈ text, pattern.uses item = true := by
  induction matched with
  | empty | done => simp
  | one accepted => simpa [Pattern.uses] using accepted
  | seq _ _ ihFirst ihSecond =>
      simp only [List.forall_mem_append, Pattern.uses, Bool.or_eq_true]
      exact ⟨fun item member => .inl (ihFirst item member), fun item member => .inr (ihSecond item member)⟩
  | altLeft _ ih => exact fun item member => by simp [Pattern.uses, ih item member]
  | altRight _ ih => exact fun item member => by simp [Pattern.uses, ih item member]
  | again _ _ ihFirst ihRest => exact List.forall_mem_append.mpr ⟨ihFirst, ihRest⟩

theorem matches_literal_iff [DecidableEq α] {items text : List α} :
    Matches (literal items) text ↔ text = items := by
  induction items generalizing text with
  | nil =>
      constructor
      · rintro ⟨⟩
        rfl
      · rintro rfl
        exact .empty
  | cons item rest ih =>
      simp only [literal, matches_seq_iff, matches_one_iff, ih, decide_eq_true_eq]
      constructor
      · rintro ⟨_, _, rfl, ⟨other, rfl, rfl⟩, rfl⟩
        rfl
      · rintro rfl
        exact ⟨[item], rest, rfl, ⟨item, rfl, rfl⟩, rfl⟩

theorem accepts_literal [DecidableEq α] (items text : List α) :
    (literal items).accepts text = decide (text = items) :=
  Bool.eq_iff_iff.mpr ((accepts_iff ..).trans (matches_literal_iff.trans decide_eq_true_iff.symm))

theorem matches_star_one {accepts : α → Bool} {text : List α}
    (accepted : ∀ item ∈ text, accepts item = true) : Matches (.star (.one accepts)) text := by
  induction text with
  | nil => exact .done
  | cons item rest ih =>
      exact .again (.one (accepted item (by simp)))
        (ih fun other member => accepted other (List.mem_cons_of_mem _ member))

/-- An item and then more items, of which each is accepted. -/
theorem matches_run_cons_iff {start continues : α → Bool} {item : α} {text : List α} :
    Matches (.seq (.one start) (.star (.one continues))) (item :: text) ↔
      start item = true ∧ ∀ later ∈ text, continues later = true := by
  constructor
  · intro matched
    obtain ⟨left, right, split, first, rest⟩ := matches_seq_iff.mp matched
    obtain ⟨item', accepted, rfl⟩ := matches_one_iff.mp first
    obtain ⟨rfl, rfl⟩ := List.cons.inj split
    exact ⟨accepted, rest.uses⟩
  · intro accepted
    exact .seq (.one accepted.1) (matches_star_one accepted.2)

/-! ## The longest match -/

/-- The length of the longest match at the start of the input. -/
def longest : Pattern α → List α → Option Nat
  | pattern, [] => if pattern.nullable then some 0 else none
  | pattern, item :: rest =>
      match longest (pattern.derivative item) rest with
      | some length => some (length + 1)
      | none => if pattern.nullable then some 0 else none

theorem matches_of_longest {pattern : Pattern α} {input : List α} {length : Nat}
    (found : longest pattern input = some length) :
    length ≤ input.length ∧ Matches pattern (input.take length) := by
  induction input generalizing pattern length with
  | nil =>
      rw [longest] at found
      split at found
      · obtain rfl := Option.some.inj found
        exact ⟨Nat.le_refl _, (matches_nil_iff pattern).mpr ‹_›⟩
      · cases found
  | cons item rest ih =>
      rw [longest] at found
      split at found
      · obtain rfl := Option.some.inj found
        obtain ⟨within, matched⟩ := ih ‹_›
        exact ⟨Nat.succ_le_succ within, (matches_derivative_iff pattern item _).mp matched⟩
      · split at found
        · obtain rfl := Option.some.inj found
          exact ⟨Nat.zero_le _, (matches_nil_iff pattern).mpr ‹_›⟩
        · cases found

/-- A match at the start of the input is no longer than the longest. -/
theorem le_longest {pattern : Pattern α} {text : List α} (matched : Matches pattern text)
    (rest : List α) : ∃ length, longest pattern (text ++ rest) = some length ∧ text.length ≤ length := by
  induction text generalizing pattern with
  | nil =>
      have isNullable := (matches_nil_iff pattern).mp matched
      cases rest with
      | nil => exact ⟨0, by simp [longest, isNullable], Nat.le_refl _⟩
      | cons item rest =>
          simp only [List.nil_append, longest, isNullable, if_true]
          split
          · exact ⟨_, rfl, Nat.zero_le _⟩
          · exact ⟨_, rfl, Nat.zero_le _⟩
  | cons item text ih =>
      obtain ⟨length, found, within⟩ := ih ((matches_derivative_iff pattern item text).mpr matched)
      exact ⟨length + 1, by simp [longest, found], Nat.succ_le_succ within⟩

/-- A match that does not contain the first item behind a text ends within the text. -/
theorem longest_le_of_stop {pattern : Pattern α} {text rest : List α} {length : Nat}
    (found : longest pattern (text ++ rest) = some length)
    (stop : ∀ item ∈ rest.head?, item ∉ (text ++ rest).take length) : length ≤ text.length := by
  have within := (matches_of_longest found).1
  by_contra tooLong
  cases rest with
  | nil => exact tooLong (by simpa using within)
  | cons item rest =>
      refine stop item rfl ?_
      rw [List.take_append, List.take_cons (by omega)]
      simp

/-- A match ends within the text if none goes on with the first item behind it. -/
theorem longest_le_of_maximal {pattern : Pattern α} {text rest : List α} {length : Nat}
    (found : longest pattern (text ++ rest) = some length)
    (maximal : ∀ item ∈ rest.head?, ∀ later, ¬ Matches pattern (text ++ item :: later)) :
    length ≤ text.length := by
  obtain ⟨within, matched⟩ := matches_of_longest found
  by_contra tooLong
  cases rest with
  | nil => exact tooLong (by simpa using within)
  | cons item rest =>
      rw [List.take_append, List.take_of_length_le (by omega), List.take_cons (by omega)] at matched
      exact maximal item rfl _ matched

theorem longest_le_of_unused {pattern : Pattern α} {text rest : List α} {length : Nat}
    (found : longest pattern (text ++ rest) = some length)
    (unused : ∀ item ∈ rest.head?, pattern.uses item = false) : length ≤ text.length := by
  refine longest_le_of_stop found fun item head reached => ?_
  have used := (matches_of_longest found).2.uses item reached
  rw [unused item head] at used
  cases used

/-- What follows a text does not matter if no match goes beyond the text. -/
theorem longest_append {pattern : Pattern α} {text rest : List α}
    (within : ∀ length, longest pattern (text ++ rest) = some length → length ≤ text.length) :
    longest pattern (text ++ rest) = longest pattern text := by
  cases found : longest pattern (text ++ rest) with
  | none =>
      cases foundText : longest pattern text with
      | none => rfl
      | some length =>
          have matched := (matches_of_longest foundText).2
          obtain ⟨_, foundMore, -⟩ := le_longest matched (text.drop length ++ rest)
          rw [← List.append_assoc, List.take_append_drop, found] at foundMore
          cases foundMore
  | some length =>
      have bounded := within length found
      have matched := (matches_of_longest found).2
      rw [List.take_append_of_le_length bounded] at matched
      obtain ⟨textLength, foundText, atLeast⟩ := le_longest matched (text.drop length)
      rw [List.take_append_drop] at foundText
      obtain ⟨shorter, matchedText⟩ := matches_of_longest foundText
      obtain ⟨_, foundMore, atMost⟩ := le_longest matchedText (text.drop textLength ++ rest)
      rw [← List.append_assoc, List.take_append_drop, found] at foundMore
      obtain rfl := Option.some.inj foundMore
      rw [List.length_take, Nat.min_eq_left bounded] at atLeast
      rw [List.length_take, Nat.min_eq_left shorter] at atMost
      rw [foundText, Nat.le_antisymm atLeast atMost]

/-! ## Rules -/

/-- The length of the longest match of any rule, and what the earliest of the
rules with such a match stands for. -/
def munch : List (Pattern α × β) → List α → Option (Nat × β)
  | [], _ => none
  | (pattern, result) :: later, input =>
      match longest pattern input, munch later input with
      | none, best => best
      | some length, none => some (length, result)
      | some length, some (length', result') =>
          if length < length' then some (length', result') else some (length, result)

/-- The longer of two matches, the first if none is longer. -/
def longer : Option (Nat × β) → Option (Nat × β) → Option (Nat × β)
  | none, best => best
  | some first, none => some first
  | some first, some second => if first.1 < second.1 then some second else some first

theorem longer_assoc (first second third : Option (Nat × β)) :
    longer (longer first second) third = longer first (longer second third) := by
  cases first with
  | none => rfl
  | some first =>
      cases second with
      | none => rfl
      | some second =>
          cases third with
          | none =>
              rw [longer, longer]
              split <;> rfl
          | some third =>
              simp only [longer]
              by_cases less : first.1 < second.1
              · by_cases less' : second.1 < third.1
                · simp [less, less', Nat.lt_trans less less']
                · simp [less, less']
              · by_cases less' : second.1 < third.1
                · simp [less, less']
                · have notLess : ¬ first.1 < third.1 := by omega
                  simp [less, less', notLess]

/-- It is one of the two, and the second only if the first is shorter. -/
theorem longer_eq_some {first second : Option (Nat × β)} {best : Nat × β}
    (found : longer first second = some best) :
    first = some best ∨ (second = some best ∧ ∀ other, first = some other → other.1 < best.1) := by
  cases first with
  | none => exact .inr ⟨found, nofun⟩
  | some first =>
      cases second with
      | none => exact .inl found
      | some second =>
          rw [longer] at found
          by_cases less : first.1 < second.1
          · rw [if_pos less] at found
            obtain rfl := Option.some.inj found
            refine .inr ⟨rfl, ?_⟩
            intro other same
            obtain rfl := Option.some.inj same
            exact less
          · rw [if_neg less] at found
            exact .inl found

theorem le_longer_left {length : Nat} {result : β} (second : Option (Nat × β)) :
    ∃ best, longer (some (length, result)) second = some best ∧ length ≤ best.1 := by
  cases second with
  | none => exact ⟨_, rfl, Nat.le_refl _⟩
  | some second =>
      rw [longer]
      by_cases less : length < second.1
      · exact ⟨second, if_pos less, Nat.le_of_lt less⟩
      · exact ⟨_, if_neg less, Nat.le_refl _⟩

theorem le_longer_right (first : Option (Nat × β)) {second : Nat × β} :
    ∃ best, longer first (some second) = some best ∧ second.1 ≤ best.1 := by
  cases first with
  | none => exact ⟨second, rfl, Nat.le_refl _⟩
  | some first =>
      rw [longer]
      by_cases less : first.1 < second.1
      · exact ⟨second, if_pos less, Nat.le_refl _⟩
      · exact ⟨first, if_neg less, Nat.le_of_not_lt less⟩

/-- What one rule matches of an input. -/
def matchOf (rule : Pattern α × β) (input : List α) : Option (Nat × β) :=
  (longest rule.1 input).map fun length => (length, rule.2)

theorem munch_cons (rule : Pattern α × β) (later : List (Pattern α × β)) (input : List α) :
    munch (rule :: later) input = longer (matchOf rule input) (munch later input) := by
  rw [munch, matchOf]
  cases longest rule.1 input with
  | none => rfl
  | some length =>
      cases munch later input with
      | none => rfl
      | some best => rfl

/-- The first rules and the second are tried apart, and the longer match is taken. -/
theorem munch_append_eq (first second : List (Pattern α × β)) (input : List α) :
    munch (first ++ second) input = longer (munch first input) (munch second input) := by
  induction first with
  | nil => rfl
  | cons rule later ih => rw [List.cons_append, munch_cons, munch_cons, ih, longer_assoc]

/-- What is taken is the longest match of a rule. -/
theorem mem_of_munch {rules : List (Pattern α × β)} {input : List α} {length : Nat} {result : β}
    (found : munch rules input = some (length, result)) :
    ∃ pattern, (pattern, result) ∈ rules ∧ longest pattern input = some length := by
  induction rules with
  | nil => cases found
  | cons rule later ih =>
      rw [munch_cons] at found
      rcases longer_eq_some found with here | ⟨behind, -⟩
      · obtain ⟨_, matched, same⟩ := Option.map_eq_some_iff.mp here
        obtain ⟨rfl, rfl⟩ := Prod.mk.inj same
        exact ⟨rule.1, by simp, matched⟩
      · obtain ⟨other, member, matched⟩ := ih behind
        exact ⟨other, List.mem_cons_of_mem _ member, matched⟩

theorem munch_congr {rules : List (Pattern α × β)} {left right : List α}
    (same : ∀ rule ∈ rules, longest rule.1 left = longest rule.1 right) :
    munch rules left = munch rules right := by
  induction rules with
  | nil => rfl
  | cons rule later ih =>
      rw [munch, munch, same rule (by simp),
        ih fun other member => same other (List.mem_cons_of_mem _ member)]

/-- What is taken is no shorter than a match of a rule. -/
theorem le_munch {rules : List (Pattern α × β)} {rule : Pattern α × β} {input : List α} {length : Nat}
    (member : rule ∈ rules) (found : longest rule.1 input = some length) :
    ∃ taken, munch rules input = some taken ∧ length ≤ taken.1 := by
  induction rules with
  | nil => cases member
  | cons head later ih =>
      rw [munch_cons]
      rcases List.mem_cons.mp member with rfl | inLater
      · rw [matchOf, found]
        exact le_longer_left _
      · obtain ⟨best, foundLater, bounded⟩ := ih inLater
        rw [foundLater]
        obtain ⟨taken, isTaken, bounded'⟩ := le_longer_right (matchOf head input)
        exact ⟨taken, isTaken, Nat.le_trans bounded bounded'⟩

/-- A rule is taken among the first rules, or among the second if these match more. -/
theorem munch_append {first second : List (Pattern α × β)} {input : List α} {length : Nat} {result : β}
    (found : munch (first ++ second) input = some (length, result)) :
    munch first input = some (length, result) ∨
      (munch second input = some (length, result) ∧
        ∀ best, munch first input = some best → best.1 < length) := by
  rw [munch_append_eq] at found
  exact longer_eq_some found

/-- A rule is taken if no rule matches more of the input, and none before it as much. -/
theorem munch_eq {before after : List (Pattern α × β)} {pattern : Pattern α} {result : β}
    {text rest : List α} (matched : Matches pattern text)
    (maximal : ∀ rule ∈ before ++ (pattern, result) :: after, ∀ length,
      longest rule.1 (text ++ rest) = some length → length ≤ text.length)
    (earliest : ∀ rule ∈ before, ¬ Matches rule.1 text) :
    munch (before ++ (pattern, result) :: after) (text ++ rest) = some (text.length, result) := by
  induction before with
  | nil =>
      obtain ⟨length, found, within⟩ := le_longest matched rest
      have exactly : length = text.length :=
        Nat.le_antisymm (maximal (pattern, result) (by simp) length found) within
      subst exactly
      rw [List.nil_append, munch, found]
      cases later : munch after (text ++ rest) with
      | none => rfl
      | some best =>
          obtain ⟨other, member, foundLater⟩ := mem_of_munch later
          have bounded := maximal (other, best.2) (by simp [member]) best.1 foundLater
          simp [Nat.not_lt.mpr bounded]
  | cons rule before ih =>
      have later := ih (fun other member => maximal other (List.mem_cons_of_mem _ member))
        fun other member => earliest other (List.mem_cons_of_mem _ member)
      rw [List.cons_append, munch, later]
      cases found : longest rule.1 (text ++ rest) with
      | none => rfl
      | some length =>
          have bounded := maximal rule (by simp) length found
          have different : length ≠ text.length := by
            rintro rfl
            have whole := (matches_of_longest found).2
            rw [List.take_left] at whole
            exact earliest rule (by simp) whole
          simp [Nat.lt_of_le_of_ne bounded different]

/-- The first rule that matches a text, where none matches more. -/
theorem munch_of_find {rules : List (Pattern α × β)} {rule : Pattern α × β} {text rest : List α}
    (first : rules.find? (fun rule => rule.1.accepts text) = some rule)
    (maximal : ∀ rule ∈ rules, ∀ length,
      longest rule.1 (text ++ rest) = some length → length ≤ text.length) :
    munch rules (text ++ rest) = some (text.length, rule.2) := by
  obtain ⟨matched, before, after, rfl, earlier⟩ := List.find?_eq_some_iff_append.mp first
  refine munch_eq ((accepts_iff ..).mp matched) maximal fun other member matchedOther => ?_
  have rejects := earlier other member
  rw [(accepts_iff ..).mpr matchedOther] at rejects
  cases rejects

/-- The rules taken on an input, with the texts they match. -/
def scan (rules : List (Pattern α × β)) : List α → List (β × List α)
  | [] => []
  | item :: rest =>
      match munch rules (item :: rest) with
      | some (length + 1, result) =>
          (result, item :: rest.take length) :: scan rules (rest.drop length)
      -- No rule matches anything.
      | _ => []
termination_by input => input.length
decreasing_by simp only [List.length_drop, List.length_cons]; omega

theorem scan_append {rules : List (Pattern α × β)} {text rest : List α} {result : β}
    (nonempty : text ≠ []) (taken : munch rules (text ++ rest) = some (text.length, result)) :
    scan rules (text ++ rest) = (result, text) :: scan rules rest := by
  cases text with
  | nil => exact absurd rfl nonempty
  | cons item text =>
      rw [List.cons_append] at taken ⊢
      rw [scan, taken]
      simp

/-- What the scanner takes first, and that it goes on behind it. -/
theorem scan_eq_cons {rules : List (Pattern α × β)} {input : List α} {taken : β × List α}
    {later : List (β × List α)} (scanned : scan rules input = taken :: later) :
    ∃ rest, input = taken.2 ++ rest ∧ taken.2 ≠ [] ∧
      munch rules input = some (taken.2.length, taken.1) ∧ scan rules rest = later := by
  cases input with
  | nil =>
      rw [scan] at scanned
      cases scanned
  | cons item input =>
      rw [scan] at scanned
      split at scanned
      · rename_i length result munched
        obtain ⟨rfl, rfl⟩ := List.cons.inj scanned
        obtain ⟨pattern, -, found⟩ := mem_of_munch munched
        have bounded := (matches_of_longest found).1
        have within : length ≤ input.length := Nat.le_of_succ_le_succ bounded
        refine ⟨input.drop length, by simp, by simp, ?_, rfl⟩
        rw [munched, List.length_cons, List.length_take, Nat.min_eq_left within]
      · cases scanned

theorem scan_eq_append {rules : List (Pattern α × β)} {input : List α}
    {before after : List (β × List α)} (scanned : scan rules input = before ++ after) :
    ∃ rest, input = (before.map (·.2)).flatten ++ rest ∧ scan rules rest = after := by
  induction before generalizing input with
  | nil => exact ⟨input, rfl, scanned⟩
  | cons taken before ih =>
      obtain ⟨rest, rfl, -, -, scannedRest⟩ := scan_eq_cons scanned
      obtain ⟨remaining, rfl, scannedAfter⟩ := ih scannedRest
      exact ⟨remaining, by simp, scannedAfter⟩

/-- If something is taken of every input, then all of it is. -/
theorem flatten_scan {rules : List (Pattern α × β)} (total : ∀ item rest,
    ∃ length result, munch rules (item :: rest) = some (length + 1, result)) (input : List α) :
    ((scan rules input).map (·.2)).flatten = input := by
  obtain ⟨rest, same, scanned⟩ := scan_eq_append (List.append_nil (scan rules input)).symm
  cases rest with
  | nil => exact (same.trans (List.append_nil _)).symm
  | cons item rest =>
      obtain ⟨length, result, taken⟩ := total item rest
      rw [scan, taken] at scanned
      cases scanned

/-- An item that no longer match contains divides an input. -/
theorem scan_divide {rules : List (Pattern α × β)} (total : ∀ item rest,
    ∃ length result, munch rules (item :: rest) = some (length + 1, result)) {item : α}
    (alone : ∀ rule ∈ rules, ∀ text, Matches rule.1 text → item ∈ text → text.length ≤ 1)
    (first rest : List α) :
    scan rules (first ++ item :: rest) = scan rules first ++ scan rules (item :: rest) := by
  generalize size : first.length = n
  induction n using Nat.strongRecOn generalizing first with
  | ind n ih =>
      cases first with
      | nil => rw [scan, List.nil_append, List.nil_append]
      | cons head first =>
          -- A match that went on to the item would be longer than one.
          have same : munch rules (head :: first ++ item :: rest) = munch rules (head :: first) := by
            refine munch_congr fun rule member => longest_append fun length found => ?_
            obtain ⟨within, matched⟩ := matches_of_longest found
            by_contra tooLong
            have reached : item ∈ (head :: first ++ item :: rest).take length := by
              rw [List.take_append]
              refine List.mem_append_right _ ?_
              rw [List.take_cons (Nat.sub_pos_of_lt (Nat.lt_of_not_le tooLong))]
              exact List.mem_cons_self
            have short := alone rule member _ matched reached
            rw [List.length_take, Nat.min_eq_left within] at short
            rw [List.length_cons] at tooLong
            omega
          obtain ⟨length, result, munched⟩ := total head first
          obtain ⟨pattern, -, found⟩ := mem_of_munch munched
          have within : length ≤ first.length := Nat.le_of_succ_le_succ (matches_of_longest found).1
          have later := ih (first.drop length).length
            (by rw [List.length_drop, ← size, List.length_cons]; omega)
            (first.drop length) rfl
          have whole : scan rules (head :: first ++ item :: rest) =
              (result, head :: first.take length) :: scan rules (first.drop length ++ item :: rest) := by
            rw [List.cons_append] at same ⊢
            rw [scan, same, munched]
            simp only [List.take_append_of_le_length within, List.drop_append_of_le_length within]
          have part : scan rules (head :: first) =
              (result, head :: first.take length) :: scan rules (first.drop length) := by
            rw [scan, munched]
          rw [whole, part, later, List.cons_append]

/-- What is taken where an item stands. -/
theorem scan_at {rules : List (Pattern α × β)} (total : ∀ item rest,
    ∃ length result, munch rules (item :: rest) = some (length + 1, result))
    (before after : List α) (item : α) :
    ∃ result left right rest, (result, left ++ item :: right) ∈ scan rules (before ++ item :: after) ∧
      munch rules (left ++ item :: right ++ rest) = some ((left ++ item :: right).length, result) ∧
      after = right ++ rest := by
  induction scanned : scan rules (before ++ item :: after) generalizing before with
  | nil =>
      have whole := flatten_scan total (before ++ item :: after)
      rw [scanned] at whole
      simp at whole
  | cons taken later ih =>
      obtain ⟨rest, same, -, munched, scannedRest⟩ := scan_eq_cons scanned
      rcases List.append_eq_append_iff.mp same with ⟨between, textSame, afterSame⟩ | ⟨between, rfl, restSame⟩
      · rcases List.cons_eq_append_iff.mp afterSame with ⟨rfl, restSame⟩ | ⟨right, rfl, rightSame⟩
        · subst restSame
          obtain ⟨result, left, right, rest, member, there⟩ := ih [] scannedRest
          exact ⟨result, left, right, rest, List.mem_cons_of_mem _ member, there⟩
        · obtain ⟨result, text⟩ := taken
          obtain rfl : text = before ++ item :: right := textSame
          refine ⟨result, before, right, rest, by simp, ?_, rightSame⟩
          rw [← munched, same]
      · subst restSame
        obtain ⟨result, left, right, rest, member, there⟩ := ih between scannedRest
        exact ⟨result, left, right, rest, List.mem_cons_of_mem _ member, there⟩

/-- Everything is taken as the longest match of what follows. -/
theorem munch_of_mem_scan {rules : List (Pattern α × β)} {input : List α} {taken : β × List α}
    (member : taken ∈ scan rules input) :
    taken.2 ≠ [] ∧ ∃ rest, taken.2 ++ rest <:+ input ∧
      munch rules (taken.2 ++ rest) = some (taken.2.length, taken.1) := by
  obtain ⟨before, after, scanned⟩ := List.append_of_mem member
  obtain ⟨rest, rfl, scannedRest⟩ := scan_eq_append scanned
  obtain ⟨remaining, rfl, nonempty, munched, -⟩ := scan_eq_cons scannedRest
  exact ⟨nonempty, remaining, List.suffix_append _ _, munched⟩

/-- Everything that is taken is a match of its rule. -/
theorem matches_of_mem_scan {rules : List (Pattern α × β)} {input : List α} {taken : β × List α}
    (member : taken ∈ scan rules input) :
    taken.2 ≠ [] ∧ ∃ pattern, (pattern, taken.1) ∈ rules ∧ Matches pattern taken.2 := by
  obtain ⟨nonempty, rest, -, munched⟩ := munch_of_mem_scan member
  obtain ⟨pattern, inRules, found⟩ := mem_of_munch munched
  have matched := (matches_of_longest found).2
  rw [List.take_left] at matched
  exact ⟨nonempty, pattern, inRules, matched⟩

theorem munch_map {γ : Type} (f : β → γ) (rules : List (Pattern α × β)) (input : List α) :
    munch (rules.map fun rule => (rule.1, f rule.2)) input =
      (munch rules input).map fun best => (best.1, f best.2) := by
  induction rules with
  | nil => rfl
  | cons rule later ih =>
      rw [List.map_cons, munch, munch, ih]
      cases longest rule.1 input with
      | none => rfl
      | some length =>
          cases munch later input with
          | none => rfl
          | some best =>
              simp only [Option.map_some]
              split <;> rfl

/-- The results of the rules do not matter for what is taken. -/
theorem scan_map {γ : Type} (f : β → γ) (rules : List (Pattern α × β)) (input : List α) :
    scan (rules.map fun rule => (rule.1, f rule.2)) input =
      (scan rules input).map fun taken => (f taken.1, taken.2) := by
  induction size : input.length using Nat.strongRecOn generalizing input with
  | ind bound ih =>
      cases input with
      | nil => rw [scan, scan, List.map_nil]
      | cons item input =>
          rw [scan, scan, munch_map]
          cases munch rules (item :: input) with
          | none => rfl
          | some best =>
              obtain ⟨length, result⟩ := best
              cases length with
              | zero => rfl
              | succ length =>
                  have shorter : (input.drop length).length < bound := by
                    rw [List.length_drop]
                    rw [List.length_cons] at size
                    omega
                  simp only [Option.map_some, List.map_cons, ih _ shorter _ rfl]

/-- Is this what the scanner takes on the texts' concatenation? -/
def isScan [DecidableEq β] (rules : List (Pattern α × β)) : List (β × List α) → Bool
  | [] => true
  | taken :: rest =>
      !taken.2.isEmpty &&
        decide (munch rules (taken.2 ++ (rest.map (·.2)).flatten) = some (taken.2.length, taken.1)) &&
        isScan rules rest

theorem scan_of_isScan [DecidableEq β] {rules : List (Pattern α × β)} {taken : List (β × List α)}
    (checked : isScan rules taken = true) : scan rules (taken.map (·.2)).flatten = taken := by
  induction taken with
  | nil => rw [List.map_nil, List.flatten_nil, scan]
  | cons first rest ih =>
      simp only [isScan, Bool.and_eq_true, Bool.not_eq_true', List.isEmpty_eq_false_iff,
        decide_eq_true_eq] at checked
      rw [List.map_cons, List.flatten_cons, scan_append checked.1.1 checked.1.2, ih checked.2]

end MaximalMunch
