import Snowlake.Parse.LexerState
import Snowlake.Parse.Rendering

/-! # The values of integer literals

`strtol` reports an overflow through `errno`, which the lexer reads but never
resets.  From the first literal that overflows on, in whatever parse, every
literal of the process therefore has the value 0.
-/

namespace Snowlake

open MaximalMunch Pattern

namespace Lexer

/-- The number a run of decimal digits denotes. -/
def denoted (text : List Char) : Nat := Nat.ofDigitChars 10 text 0

/-- The value a numeral is to have. -/
def literalValue (text : List Char) : IntegerType :=
  if denoted text ≤ 2 ^ 63 - 1 then UInt64.ofNat (denoted text) else 0

/-- A numeral that is too large is among the matches. -/
def Overflowed (taken : List Match) : Prop :=
  ∃ literal ∈ taken, literal.1.1 = .makeIntegerLiteral ∧ IsNumeral literal.2 ∧ 2 ^ 63 ≤ denoted literal.2

theorem strtol_numeral {text : List Char} (numeral : IsNumeral text) :
    strtol text = if denoted text < 2 ^ 63 then ((denoted text : Int), false)
      else (2 ^ 63 - 1, true) :=
  strtol_digits numeral.1 numeral.2

theorem literalValue_of_lt {text : List Char} (small : denoted text < 2 ^ 63) :
    literalValue text = UInt64.ofNat (denoted text) := if_pos (by omega)

theorem literalValue_of_le {text : List Char} (large : 2 ^ 63 ≤ denoted text) :
    literalValue text = 0 := if_neg (by omega)

/-- Only a numeral for 0 has the value 0, among those in range. -/
theorem denoted_eq_zero {text : List Char} (small : denoted text < 2 ^ 63)
    (zero : literalValue text = 0) : denoted text = 0 := by
  have toNat := congrArg UInt64.toNat zero
  rw [literalValue_of_lt small, UInt64.toNat_ofNat'] at toNat
  have remainder : denoted text % 2 ^ 64 = 0 := toNat
  omega

/-! ## The texts of literals -/

theorem strtol_quote {text : List Char} (quoted : text.head? = some '\'') :
    strtol text = (0, false) := by
  obtain ⟨rest, rfl⟩ := List.head?_eq_some_iff.mp quoted
  rfl

theorem integerPattern_of_mem {pattern : Pattern Char} {locationAction : LocationAction}
    (member : (pattern, Action.makeIntegerLiteral, locationAction) ∈ locatedRules) :
    pattern = integerPattern := by
  simp [locatedRules, tokenRules, rule] at member
  exact member.1

/-- `strtol` overflows on the large numerals only. -/
theorem strtol_overflows_iff {text : List Char} (matched : Matches integerPattern text)
    (nonempty : text ≠ []) : (strtol text).2 = true ↔ IsNumeral text ∧ 2 ^ 63 ≤ denoted text := by
  have starts : IsNumeral text ∨ text.head? = some '\'' := by
    rcases numeral_or_quotes matched nonempty with numeral | ⟨_, rfl⟩ | ⟨_, rfl⟩
    · exact .inl numeral
    · exact .inr rfl
    · exact .inr rfl
  rcases starts with numeral | quoted
  · rw [strtol_numeral numeral]
    split
    · simp only [Bool.false_eq_true, false_iff]
      omega
    · simp only [true_iff]
      exact ⟨numeral, by omega⟩
  · rw [strtol_quote quoted]
    simp only [Bool.false_eq_true, false_iff]
    rintro ⟨numeral, -⟩
    exact absurd (numeral.2 '\'' (List.mem_of_mem_head? quoted)) (by decide)

/-! ## `errno` -/

/-- The matches of integer literals are matches of their rule. -/
def Genuine (taken : List Match) : Prop :=
  ∀ literal ∈ taken, literal.2 ≠ [] ∧
    (literal.1.1 = .makeIntegerLiteral → Matches integerPattern literal.2)

theorem Call.genuine (call : Call) : Genuine call.matches := by
  intro literal member
  obtain ⟨nonempty, pattern, inRules, matched⟩ := matches_of_mem_scan (List.mem_of_mem_take member)
  refine ⟨nonempty, fun isLiteral => ?_⟩
  obtain ⟨⟨action, locationAction⟩, text⟩ := literal
  obtain rfl : action = .makeIntegerLiteral := isLiteral
  exact integerPattern_of_mem inRules ▸ matched

theorem take_erange {taken : Match} (nonempty : taken.2 ≠ [])
    (genuine : taken.1.1 = .makeIntegerLiteral → Matches integerPattern taken.2) (state : LexerState) :
    (state.take taken).2.erange = true ↔ state.erange = true ∨ Overflowed [taken] := by
  simp only [Overflowed, List.mem_singleton, exists_eq_left, LexerState.take]
  cases action : taken.1.1 with
  | ignore | make | makeIdentifier => simp [Action.run]
  | makeIntegerLiteral =>
      have overflows := strtol_overflows_iff (genuine action) nonempty
      simp only [Action.run, Bool.or_eq_true, overflows, true_and]

theorem Overflowed.append_iff {first second : List Match} :
    Overflowed (first ++ second) ↔ Overflowed first ∨ Overflowed second := by
  simp only [Overflowed, List.mem_append, or_and_right, exists_or]

theorem symbols_append (first second : List Match) (state : LexerState) :
    symbols (first ++ second) state =
      ((symbols first state).1 ++ (symbols second (symbols first state).2).1,
        (symbols second (symbols first state).2).2) := by
  induction first generalizing state with
  | nil => rfl
  | cons taken rest ih =>
      rw [List.cons_append, symbols, symbols]
      cases state.take taken with
      | mk token next =>
          cases token with
          | none => exact ih next
          | some token => simp only [ih, List.cons_append]

/-- `errno` is `ERANGE` from the first overflow on. -/
theorem symbols_erange {taken : List Match} (genuine : Genuine taken) (state : LexerState) :
    (symbols taken state).2.erange = true ↔ state.erange = true ∨ Overflowed taken := by
  induction taken generalizing state with
  | nil => simp [symbols, Overflowed]
  | cons first rest ih =>
      have here := take_erange (genuine first (by simp)).1 (genuine first (by simp)).2 state
      have later := ih fun literal member => genuine literal (List.mem_cons_of_mem _ member)
      have split : Overflowed (first :: rest) ↔ Overflowed [first] ∨ Overflowed rest :=
        @Overflowed.append_iff [first] rest
      rw [symbols, split, ← or_assoc, ← here]
      cases state.take first with
      | mk token next =>
          cases token with
          | none => exact later next
          | some token => exact later next.step

/-- A symbol is made of one match, in the state the matches before it lead to. -/
theorem mem_symbols_iff {symbol : Symbol} {taken : List Match} {state : LexerState} :
    symbol ∈ (symbols taken state).1 ↔ ∃ before here later, taken = before ++ here :: later ∧
      ((symbols before state).2.take here).1 = some symbol.token ∧ symbol.yytext = here.2 ∧
        symbol.location = ((symbols before state).2.take here).2.loc := by
  constructor
  · intro member
    induction taken generalizing state with
    | nil => cases member
    | cons first rest ih =>
        rw [symbols] at member
        cases made : state.take first with
        | mk token next =>
            rw [made] at member
            cases token with
            | none =>
                obtain ⟨before, here, later, rfl, found⟩ := ih member
                refine ⟨first :: before, here, later, rfl, ?_⟩
                simpa only [symbols, made] using found
            | some token =>
                rcases List.mem_cons.mp member with rfl | inRest
                · exact ⟨[], first, rest, rfl, by simp only [symbols, made, and_self]⟩
                · obtain ⟨before, here, later, rfl, found⟩ := ih inRest
                  refine ⟨first :: before, here, later, rfl, ?_⟩
                  simpa only [symbols, made] using found
  · rintro ⟨before, here, later, rfl, made, text, location⟩
    rw [symbols_append, symbols]
    cases taken : (symbols before state).2.take here with
    | mk token next =>
        rw [taken] at made location
        obtain rfl : token = some symbol.token := made
        have same : symbol = ⟨symbol.token, here.2, next.loc⟩ := by
          rw [← text, ← location]
        exact List.mem_append_right _ (same ▸ List.mem_cons_self)

end Lexer

open Lexer in
theorem LexerState.after_erange (calls : List Call) (state : LexerState) :
    (state.after calls).erange = true ↔
      state.erange = true ∨ Overflowed (calls.flatMap Call.matches) := by
  induction calls generalizing state with
  | nil => simp [after, Overflowed]
  | cons call rest ih =>
      have here : (call.run state).2.erange = true ↔ state.erange = true ∨ Overflowed call.matches :=
        symbols_erange call.genuine state.step
      rw [after, List.foldl_cons, List.flatMap_cons, Overflowed.append_iff, ← or_assoc, ← here]
      exact ih (call.run state).2

namespace Lexer

/-- Every numeral among the symbols of the calls has its value, if the process
begins with them. -/
def LiteralsExact (calls : List Call) : Prop :=
  ∀ before call after, calls = before ++ call :: after →
    ∀ symbol ∈ (call.run (LexerState.after {} before)).1, ∀ value,
      symbol.token = .integerLiteral value → IsNumeral symbol.yytext →
        value = literalValue symbol.yytext

/-- No numeral that is in range and not zero is lexed behind one that overflows. -/
def NoneBehindOverflow (calls : List Call) : Prop :=
  ∀ before call after, calls = before ++ call :: after →
    ∀ earlier literal later, call.matches = earlier ++ literal :: later →
      literal.1.1 = .makeIntegerLiteral → IsNumeral literal.2 → 0 < denoted literal.2 →
        denoted literal.2 < 2 ^ 63 → ¬ Overflowed (before.flatMap Call.matches ++ earlier)

/-- `errno` at a match: has a literal before it overflowed? -/
theorem erange_at (before : List Call) {call : Call} {earlier later : List Match} {here : Match}
    (split : call.matches = earlier ++ here :: later) :
    (symbols earlier (LexerState.after {} before).step).2.erange = true ↔
      Overflowed (before.flatMap Call.matches ++ earlier) := by
  have genuine : Genuine earlier := fun literal member =>
    call.genuine literal (split ▸ List.mem_append_left _ member)
  rw [symbols_erange genuine, Overflowed.append_iff]
  refine or_congr_left ?_
  exact (LexerState.after_erange before {}).trans (or_iff_right Bool.false_ne_true)

/-- The token of a numeral. -/
theorem take_numeral {literal : Match} (isLiteral : literal.1.1 = .makeIntegerLiteral)
    (numeral : IsNumeral literal.2) (state : LexerState) :
    (state.take literal).1 = some (.integerLiteral
      (if state.erange then 0 else literalValue literal.2)) := by
  have read := strtol_numeral numeral
  by_cases small : denoted literal.2 < 2 ^ 63
  · rw [if_pos small] at read
    simp only [LexerState.take, isLiteral, Action.run, read, Bool.or_false, literalValue_of_lt small,
      ofInt_of_lt small]
  · rw [if_neg small] at read
    simp only [LexerState.take, isLiteral, Action.run, read, Bool.or_true, if_true,
      literalValue_of_le (Nat.le_of_not_lt small), ite_self]

/-- Only the rule for integers makes integer literals. -/
theorem isLiteral_of_take {call : Call} {taken : Match} (member : taken ∈ call.matches)
    {state : LexerState} {value : IntegerType}
    (made : (state.take taken).1 = some (.integerLiteral value)) :
    taken.1.1 = .makeIntegerLiteral := by
  obtain ⟨-, pattern, inRules, -⟩ := matches_of_mem_scan (List.mem_of_mem_take member)
  have others : ∀ rule ∈ locatedRules, rule.2.1 ≠ .make (.integerLiteral value) := by
    simp [locatedRules, tokenRules, rule]
  cases action : taken.1.1 with
  | ignore | makeIdentifier => simp [LexerState.take, action, Action.run] at made
  | makeIntegerLiteral => rfl
  | make token =>
      simp only [LexerState.take, action, Action.run] at made
      obtain rfl : token = .integerLiteral value := Option.some.inj made
      exact absurd action (others _ inRules)

theorem literalsExact_iff (calls : List Call) : LiteralsExact calls ↔ NoneBehindOverflow calls := by
  constructor
  · intro exact before call after split earlier literal later inCall isLiteral numeral positive small
      overflowed
    have erange := (erange_at before inCall).mpr overflowed
    have made := take_numeral isLiteral numeral (symbols earlier (LexerState.after {} before).step).2
    rw [erange, if_pos rfl] at made
    have member : ⟨.integerLiteral 0, literal.2, _⟩ ∈ (call.run (LexerState.after {} before)).1 :=
      mem_symbols_iff.mpr ⟨earlier, literal, later, inCall, made, rfl, rfl⟩
    have zero : 0 = literalValue literal.2 := exact before call after split _ member 0 rfl numeral
    have isZero := denoted_eq_zero small zero.symm
    omega
  · intro condition before call after split symbol member value isValue numeral
    obtain ⟨earlier, literal, later, inCall, made, text, -⟩ := mem_symbols_iff.mp member
    rw [isValue] at made
    rw [text] at numeral ⊢
    have isLiteral := isLiteral_of_take (inCall ▸ List.mem_append_right _ List.mem_cons_self) made
    rw [take_numeral isLiteral numeral] at made
    obtain rfl := Token.integerLiteral.inj (Option.some.inj made)
    by_cases erange : (symbols earlier (LexerState.after {} before).step).2.erange = true
    · rw [if_pos erange]
      have overflowed := (erange_at before inCall).mp erange
      by_cases small : denoted literal.2 < 2 ^ 63
      · have zero : denoted literal.2 = 0 := by
          by_contra positive
          exact condition before call after split earlier literal later inCall isLiteral numeral
            (Nat.pos_of_ne_zero positive) small overflowed
        rw [literalValue_of_lt small, zero]
        rfl
      · exact (literalValue_of_le (Nat.le_of_not_lt small)).symm
    · rw [if_neg erange]

/-- A parse of a literal that overflows, and then a parse of the literal 1. -/
def overflowCalls : List Call := [⟨"9223372036854775808".toList, 1⟩, ⟨['1'], 1⟩]

/-- The literal 1 has the value 0. -/
theorem overflowCalls_not_exact : ¬ LiteralsExact overflowCalls := by
  have first : isScan locatedRules [((.makeIntegerLiteral, .keep), "9223372036854775808".toList)] =
      true := by decide
  have second : isScan locatedRules [((.makeIntegerLiteral, .keep), ['1'])] = true := by decide
  have overflows : (Call.run ⟨"9223372036854775808".toList, 1⟩ {}).2.erange = true := by
    have scanned : scan locatedRules "9223372036854775808".toList = _ := scan_of_isScan first
    rw [Call.run, Call.matches, scanned]
    decide
  have made : (Call.run ⟨['1'], 1⟩ (Call.run ⟨"9223372036854775808".toList, 1⟩ {}).2).1.map
      (fun symbol => (symbol.token, symbol.yytext)) = [(.integerLiteral 0, ['1'])] := by
    have scanned : scan locatedRules ['1'] = _ := scan_of_isScan second
    generalize (Call.run ⟨"9223372036854775808".toList, 1⟩ {}).2 = state at overflows
    rw [Call.run, Call.matches, scanned]
    simp [symbols, LexerState.take, LexerState.step, Action.run, overflows]
  intro exact
  obtain ⟨symbol, member, same⟩ := List.mem_map.mp (made ▸ List.mem_singleton_self _)
  obtain ⟨token, text⟩ := Prod.mk.inj same
  have value := exact [_] _ [] rfl symbol member 0 token (text ▸ by decide)
  rw [text] at value
  exact absurd value (by decide)

end Lexer

end Snowlake
