import Snowlake.Parse.Alphabet
import Snowlake.Parse.LexYyItems

/-! # Runs of the scanner that flex made

The generated scanner takes the longest match of the rules of `lexer.ll`, also at
the end of the buffer, where it has to go over the text a second time.
-/

namespace Snowlake

open MaximalMunch

namespace LexYy

/-! ## One round -/

theorem next_of_mem {state yy_c : ℕ} (inStates : state ∈ states) (inClasses : yy_c ∈ classes) :
    next 4 state yy_c = some ((automaton.next state yy_c).getD jam) := by
  have leads := checked.inside state inStates yy_c inClasses
  have isNext : automaton.next state yy_c =
    (some ((next 4 state yy_c).getD 0)).filter (· ≠ jam) := rfl
  cases moved : next 4 state yy_c with
  | none =>
      rw [isNext, moved] at leads
      exact absurd (leads 0 rfl) (by decide)
  | some next =>
      rw [isNext, moved]
      by_cases isJam : next = jam <;> simp [Option.filter_some, isJam]

theorem yy_accept_of_mem {state : ℕ} (inStates : state ∈ states) :
    yy_accept[state]? = some ((automaton.accept state).getD 0) := by
  have length : yy_accept.length = 223 := rfl
  have inTable : state < yy_accept.length := by
    rw [states, List.mem_cons, List.mem_range'_1] at inStates
    omega
  have isAccept : automaton.accept state = yy_accept[state]?.filter (· ≠ 0) := rfl
  rw [isAccept, List.getElem?_eq_getElem inTable]
  by_cases isZero : yy_accept[state] = 0 <;> simp [Option.filter_some, isZero]

theorem yy_accept_of_accept {state yy_act : ℕ} (accepts : automaton.accept state = some yy_act) :
    yy_accept[state]? = some yy_act ∧ yy_act ≠ 0 := by
  obtain ⟨isEntry, nonzero⟩ := Option.filter_eq_some_iff.mp accepts
  exact ⟨isEntry, by simpa using nonzero⟩

/-- The end of the buffer is recognised in every state. -/
theorem next_zero : ∀ state ∈ states, next 4 state 0 = some 3 := by decide +kernel

/-- The class of a byte. -/
def byteClass (byte : UInt8) : ℕ := classOf (char byte)

theorem byteClass_mem (byte : UInt8) : byteClass byte ∈ classes := classOf_mem (char byte)

theorem toNat_char (byte : UInt8) : (char byte).toNat = byte.toNat := by
  have valid : byte.toNat.isValidChar := .inl (Nat.lt_trans byte.toNat_lt (by decide))
  rw [char, Char.ofNat, dif_pos valid]
  rfl

theorem yy_ec_of_ne {byte : UInt8} (nonzero : byte ≠ 0) :
    yy_ec[byte.toNat]? = some (byteClass byte) := by
  have inTable : byte.toNat < yy_ec.length := length_yy_ec ▸ byte.toNat_lt
  have isNonzero : char byte ≠ '\x00' := by
    intro zero
    have code := toNat_char byte
    rw [zero] at code
    exact nonzero (UInt8.toNat_inj.mp code.symm)
  rw [byteClass, classOf, if_neg isNonzero, toNat_char, List.getD_eq_getElem?_getD,
    List.getElem?_eq_getElem inTable, Option.getD_some]

namespace Cursor

/-- The cursor behind the test for an accepting state. -/
def mark (cursor : Cursor) : Cursor :=
  if (automaton.accept cursor.yy_current_state).isSome then
    { cursor with
      yy_last_accepting_state := cursor.yy_current_state, yy_last_accepting_cpos := cursor.yy_cp }
  else cursor

def move (cursor : Cursor) (state : ℕ) : Cursor :=
  { cursor.mark with yy_current_state := state, yy_cp := cursor.yy_cp + 1 }

/-- The last accepting position and its action. -/
def best (cursor : Cursor) : Option (ℕ × ℕ) :=
  (automaton.accept cursor.yy_last_accepting_state).map (cursor.yy_last_accepting_cpos, ·)

/-- The longest match that the text goes on with, or what was accepted before. -/
def answer (cursor : Cursor) (input : List ℕ) : Option (ℕ × ℕ) :=
  ((automaton.longest cursor.yy_current_state input).map fun found => (cursor.yy_cp + found.1, found.2)).or
    cursor.best

@[simp] theorem mark_state (cursor : Cursor) : cursor.mark.yy_current_state = cursor.yy_current_state := by
  unfold mark
  split <;> rfl

@[simp] theorem mark_cp (cursor : Cursor) : cursor.mark.yy_cp = cursor.yy_cp := by
  unfold mark
  split <;> rfl

@[simp] theorem move_state (cursor : Cursor) (state : ℕ) :
    (cursor.move state).yy_current_state = state := rfl

@[simp] theorem best_move (cursor : Cursor) (state : ℕ) : (cursor.move state).best = cursor.mark.best := rfl

theorem best_mark (cursor : Cursor) :
    cursor.mark.best = ((automaton.accept cursor.yy_current_state).map (cursor.yy_cp, ·)).or cursor.best := by
  unfold mark
  cases accepts : automaton.accept cursor.yy_current_state with
  | none => rfl
  | some yy_act => simp [best, accepts]

theorem answer_nil (cursor : Cursor) : cursor.answer [] = cursor.mark.best := by
  rw [best_mark, answer, Scanner.longest, Option.map_map]
  rfl

theorem answer_cons (cursor : Cursor) (yy_c : ℕ) (rest : List ℕ) :
    cursor.answer (yy_c :: rest) =
      match automaton.next cursor.yy_current_state yy_c with
      | none => cursor.mark.best
      | some state => (cursor.move state).answer rest := by
  rw [answer, Scanner.longest]
  cases automaton.next cursor.yy_current_state yy_c with
  | none =>
      rw [Option.bind_none, best_mark, Option.map_map]
      rfl
  | some state =>
      have later : (cursor.move state).answer rest =
          ((automaton.longest state rest).map fun found => (cursor.yy_cp + 1 + found.1, found.2)).or
            cursor.mark.best := rfl
      simp only [Option.bind_some, later, best_mark]
      cases automaton.longest state rest with
      | none =>
          rw [Option.map_map]
          rfl
      | some found => simp [Nat.add_assoc, Nat.add_comm 1]

end Cursor

theorem round_eq {cursor : Cursor} {yy_c : ℕ} (inStates : cursor.yy_current_state ∈ states)
    (inClasses : yy_c ∈ classes) :
    round yy_c cursor =
      some (cursor.move ((automaton.next cursor.yy_current_state yy_c).getD jam)) := by
  rw [round, yy_accept_of_mem inStates, next_of_mem inStates inClasses, Cursor.move, Cursor.mark]
  cases accepts : automaton.accept cursor.yy_current_state with
  | none => rfl
  | some yy_act =>
      have nonzero := (yy_accept_of_accept accepts).2
      simp [nonzero]

/-! ## The match -/

/-- The classes of a text. -/
def classesOf (text : List UInt8) : List ℕ := text.map byteClass

/-- The cursor stands where the state that it has accepts. -/
def Cursor.Settled (cursor : Cursor) : Prop :=
  cursor.yy_current_state = cursor.yy_last_accepting_state ∧ cursor.yy_cp = cursor.yy_last_accepting_cpos

theorem yy_match_succ {buffer : List UInt8} {cursor moved : Cursor} {byte : UInt8} {yy_c : ℕ}
    (read : buffer[cursor.yy_cp]? = some byte) (isClass : yy_ec[byte.toNat]? = some yy_c)
    (moves : round yy_c cursor = some moved) (fuel : ℕ) :
    yy_match buffer (fuel + 1) cursor =
      if moved.yy_current_state = jam then some moved.backUp else yy_match buffer fuel moved := by
  rw [yy_match, read, Option.bind_eq_bind, Option.bind_some, isClass, Option.bind_eq_bind,
    Option.bind_some, moves]
  rfl

/-- The zeros behind the text: the first leads to the state of the end of the
buffer, which accepts, and the second jams. -/
theorem yy_match_end {text : List UInt8} (cursor : Cursor) (inStates : cursor.yy_current_state ∈ states)
    (atEnd : cursor.yy_cp = text.length) (fuel : ℕ) :
    ∃ result, yy_match (text ++ [0, 0]) (fuel + 2) cursor = some result ∧
      result.yy_current_state = 3 ∧ result.yy_cp = text.length + 1 := by
  have firstZero : (text ++ [0, 0])[cursor.yy_cp]? = some (0 : UInt8) := by simp [atEnd]
  have secondZero : (text ++ [0, 0])[cursor.yy_cp + 1]? = some (0 : UInt8) := by simp [atEnd]
  obtain ⟨moved, moves, atThree, position⟩ : ∃ moved, round 0 cursor = some moved ∧
      moved.yy_current_state = 3 ∧ moved.yy_cp = cursor.yy_cp + 1 := by
    rw [round, yy_accept_of_mem inStates, next_zero _ inStates]
    simp only [Option.bind_eq_bind, Option.bind_some]
    split
    · exact ⟨_, rfl, rfl, rfl⟩
    · exact ⟨_, rfl, rfl, rfl⟩
  have jams : round 0 moved = some ⟨jam, moved.yy_cp + 1, 3, moved.yy_cp⟩ := by
    rw [round, atThree]
    rfl
  have isClass : yy_ec[(0 : UInt8).toNat]? = some 0 := rfl
  rw [← position] at secondZero
  rw [yy_match_succ firstZero isClass moves, atThree, if_neg (by decide),
    yy_match_succ secondZero isClass jams, if_pos rfl]
  exact ⟨_, rfl, rfl, atEnd ▸ position⟩

theorem jam_notMem : jam ∉ states := by decide

/-- The loop ends at the last accepting position before it jams, or behind the
end of the buffer. -/
theorem yy_match_eq {text rest : List UInt8} (cursor : Cursor) {fuel : ℕ}
    (inStates : cursor.yy_current_state ∈ states) (within : cursor.yy_cp ≤ text.length)
    (behind : text.drop cursor.yy_cp = rest) (nonzero : ∀ byte ∈ rest, byte ≠ 0)
    (enough : rest.length + 2 ≤ fuel) :
    ∃ result, yy_match (text ++ [0, 0]) fuel cursor = some result ∧
      ((automaton.run cursor.yy_current_state (classesOf rest) = none ∧ result.Settled ∧
          result.best = cursor.answer (classesOf rest)) ∨
        ((automaton.run cursor.yy_current_state (classesOf rest)).isSome ∧
          result.yy_current_state = 3 ∧ result.yy_cp = text.length + 1)) := by
  induction rest generalizing cursor fuel with
  | nil =>
      obtain ⟨fuel, rfl⟩ := Nat.exists_eq_add_of_le' enough
      have atEnd : cursor.yy_cp = text.length := Nat.le_antisymm within (List.drop_eq_nil_iff.mp behind)
      obtain ⟨result, ran, ended⟩ := yy_match_end cursor inStates atEnd fuel
      exact ⟨result, ran, .inr ⟨rfl, ended⟩⟩
  | cons byte rest ih =>
      rw [List.length_cons] at enough
      obtain ⟨fuel, rfl⟩ := Nat.exists_eq_succ_of_ne_zero (by omega : fuel ≠ 0)
      have inside : cursor.yy_cp < text.length := by
        by_contra beyond
        rw [List.drop_eq_nil_iff.mpr (by omega)] at behind
        cases behind
      obtain ⟨isByte, isRest⟩ := List.cons.inj ((List.drop_eq_getElem_cons inside).symm.trans behind)
      have read : (text ++ [0, 0])[cursor.yy_cp]? = some byte := by
        rw [List.getElem?_append_left inside, List.getElem?_eq_getElem inside, isByte]
      have isClass := yy_ec_of_ne (nonzero byte List.mem_cons_self)
      have leads := checked.inside _ inStates _ (classOf_mem (char byte))
      have split : classesOf (byte :: rest) = byteClass byte :: classesOf rest := rfl
      rw [split, Scanner.run_cons, Cursor.answer_cons, yy_match_succ read isClass
        (round_eq inStates (byteClass_mem byte))]
      cases moved : automaton.next cursor.yy_current_state (byteClass byte) with
      | none =>
          rw [Cursor.move_state, Option.getD_none, if_pos rfl]
          exact ⟨_, rfl, .inl ⟨rfl, ⟨rfl, rfl⟩, rfl⟩⟩
      | some state =>
          have inStates := leads state moved
          rw [Option.getD_some, Cursor.move_state, if_neg (ne_of_mem_of_not_mem inStates jam_notMem)]
          exact ih _ inStates inside isRest (fun byte member => nonzero byte (List.mem_cons_of_mem _ member))
            (Nat.le_of_succ_le_succ enough)

/-- At the end of the buffer the rounds are made again, to the state behind the text. -/
theorem yy_get_previous_state_eq {rest : List UInt8} (cursor : Cursor) {state : ℕ}
    (inStates : cursor.yy_current_state ∈ states) (nonzero : ∀ byte ∈ rest, byte ≠ 0)
    (ran : automaton.run cursor.yy_current_state (classesOf rest) = some state) :
    ∃ result, yy_get_previous_state rest cursor = some result ∧
      result.yy_current_state ∈ states ∧ result.mark.best = cursor.answer (classesOf rest) := by
  induction rest generalizing cursor with
  | nil => exact ⟨cursor, rfl, inStates, cursor.answer_nil.symm⟩
  | cons byte rest ih =>
      have isNonzero := nonzero byte List.mem_cons_self
      have split : classesOf (byte :: rest) = byteClass byte :: classesOf rest := rfl
      rw [split, Scanner.run_cons] at ran
      obtain ⟨next, moved, later⟩ := Option.bind_eq_some_iff.mp ran
      have inStates' := checked.inside _ inStates _ (byteClass_mem byte) next moved
      have moves : yy_get_previous_state (byte :: rest) cursor =
          yy_get_previous_state rest (cursor.move next) := by
        have stepped := round_eq inStates (byteClass_mem byte)
        rw [moved, Option.getD_some] at stepped
        simp only [yy_get_previous_state, if_neg isNonzero, yy_ec_of_ne isNonzero, Option.bind_eq_bind,
          Option.bind_some, stepped]
      rw [moves, split, Cursor.answer_cons, moved]
      exact ih _ inStates' (fun byte member => nonzero byte (List.mem_cons_of_mem _ member)) later

/-- The action that the cursor has. -/
theorem yy_find_action_eq {cursor : Cursor} {yy_act position : ℕ}
    (inTable : (yy_accept[cursor.yy_current_state]?).isSome)
    (found : cursor.mark.best = some (position, yy_act)) :
    ∃ result, yy_find_action 2 cursor = some (yy_act, result) ∧ result.yy_cp = position := by
  rw [Cursor.best_mark] at found
  cases accepts : automaton.accept cursor.yy_current_state with
  | some accepted =>
      rw [accepts] at found
      cases found
      obtain ⟨isEntry, nonzero⟩ := yy_accept_of_accept accepts
      refine ⟨cursor, ?_, rfl⟩
      rw [yy_find_action, isEntry, Option.bind_eq_bind, Option.bind_some, if_neg nonzero]
      rfl
  | none =>
      rw [accepts, Option.map_none, Option.none_or, Cursor.best, Option.map_eq_some_iff] at found
      obtain ⟨accepted, isLast, same⟩ := found
      obtain ⟨rfl, rfl⟩ := Prod.mk.inj same
      obtain ⟨isEntry, nonzero⟩ := yy_accept_of_accept isLast
      obtain ⟨entry, isHere⟩ := Option.isSome_iff_exists.mp inTable
      have isZero : entry = 0 := by
        by_contra nonzero
        have isAccept : automaton.accept cursor.yy_current_state =
          yy_accept[cursor.yy_current_state]?.filter (· ≠ 0) := rfl
        rw [isAccept, isHere] at accepts
        simp [Option.filter_some, nonzero] at accepts
      have behind : yy_accept[cursor.backUp.yy_current_state]? = some accepted := isEntry
      refine ⟨cursor.backUp, ?_, rfl⟩
      rw [yy_find_action, isHere, Option.bind_eq_bind, Option.bind_some, if_pos isZero, yy_find_action, behind,
        Option.bind_eq_bind, Option.bind_some, if_neg nonzero]
      rfl

/-! ## Tokens -/

theorem mem_numbers {input : List Char} {found : ℕ × ℕ} (munched : munch rules input = some found) :
    found.2 ∈ numbers := by
  obtain ⟨pattern, member, -⟩ := mem_of_munch munched
  exact (List.of_mem_zip member).2

theorem classesOf_eq (text : List UInt8) : classesOf text = (text.map char).map classOf := by
  rw [List.map_map]
  rfl

/-- What the automaton answers from its first state on. -/
theorem answer_of_munch {text : List UInt8} {length yy_act : ℕ}
    (munched : munch rules (text.map char) = some (length, yy_act)) {cursor : Cursor}
    (atStart : cursor.yy_current_state = 1) :
    cursor.answer (classesOf text) = some (cursor.yy_cp + length, yy_act) := by
  have isRules : numbers = rules.map Prod.snd := by decide
  have found := (isRules ▸ checked).longest_eq_munch (fun _ member => recognises member) classOf_mem
    (text.map char)
  rw [munched, ← classesOf_eq] at found
  have start : automaton.start = 1 := rfl
  rw [Cursor.answer, atStart, ← start, found]
  rfl

theorem yy_find_action_of_settled {cursor : Cursor} {yy_act position : ℕ} (settled : cursor.Settled)
    (found : cursor.best = some (position, yy_act)) :
    ∃ result, yy_find_action 2 cursor = some (yy_act, result) ∧ result.yy_cp = position := by
  obtain ⟨accepted, accepts, same⟩ := Option.map_eq_some_iff.mp found
  obtain ⟨rfl, rfl⟩ := Prod.mk.inj same
  rw [← settled.1] at accepts
  refine yy_find_action_eq ?_ ?_
  · rw [(yy_accept_of_accept accepts).1]
    rfl
  · rw [Cursor.best_mark, accepts, settled.2]
    rfl

/-- A match that is not the end of the buffer. -/
theorem token_of_action {text : List UInt8} {cursor result behind : Cursor} {yy_act : ℕ}
    (matched : yy_match (text ++ [0, 0]) (text.length + 2) { cursor with yy_current_state := 1 } = some result)
    (acted : yy_find_action 2 result = some (yy_act, behind)) (isNumber : yy_act ≠ YY_END_OF_BUFFER) :
    token text cursor = some (some yy_act, behind) := by
  simp only [token, matched, acted, Option.bind_eq_bind, Option.bind_some, if_pos isNumber]
  rfl

/-- A match of the end of the buffer, which is the end of the input or goes over
the text again. -/
theorem token_of_end {text : List UInt8} {cursor result : Cursor}
    (matched : yy_match (text ++ [0, 0]) (text.length + 2) { cursor with yy_current_state := 1 } = some result)
    (atThree : result.yy_current_state = 3) (position : result.yy_cp = text.length + 1) :
    token text cursor =
      if text.length + 1 - cursor.yy_cp = 1 then some (none, { result with yy_cp := cursor.yy_cp })
      else do
        let again ← yy_get_previous_state (text.drop cursor.yy_cp)
          { result with yy_current_state := 1, yy_cp := cursor.yy_cp }
        let (yy_act, behind) ← yy_find_action 2 again
        if yy_act = YY_END_OF_BUFFER then none else return (some yy_act, behind) := by
  have acted : yy_find_action 2 result = some (YY_END_OF_BUFFER, result) := by
    rw [yy_find_action, atThree]
    rfl
  simp only [token, matched, acted, Option.bind_eq_bind, Option.bind_some, ne_eq, not_true_eq_false, if_false,
    position]
  rfl

/-- The scanner takes the longest match of the rules. -/
theorem token_eq {text : List UInt8} {cursor : Cursor} {length yy_act : ℕ}
    (nonzero : ∀ byte ∈ text, byte ≠ 0) (within : cursor.yy_cp < text.length)
    (munched : munch rules ((text.drop cursor.yy_cp).map char) = some (length, yy_act)) :
    ∃ behind, token text cursor = some (some yy_act, behind) ∧ behind.yy_cp = cursor.yy_cp + length := by
  have isNumber : yy_act ≠ YY_END_OF_BUFFER :=
    ne_of_mem_of_not_mem (mem_numbers munched) (by decide : YY_END_OF_BUFFER ∉ numbers)
  have nonzeroRest : ∀ byte ∈ text.drop cursor.yy_cp, byte ≠ 0 :=
    fun byte member => nonzero byte (List.mem_of_mem_drop member)
  have enough : (text.drop cursor.yy_cp).length + 2 ≤ text.length + 2 := by
    rw [List.length_drop]
    omega
  obtain ⟨result, matched, jammed | ended⟩ := yy_match_eq { cursor with yy_current_state := 1 }
    List.mem_cons_self (Nat.le_of_lt within) rfl nonzeroRest enough
  · obtain ⟨-, settled, isBest⟩ := jammed
    rw [answer_of_munch munched rfl] at isBest
    obtain ⟨behind, acted, position⟩ := yy_find_action_of_settled settled isBest
    exact ⟨behind, token_of_action matched acted isNumber, position⟩
  · obtain ⟨completes, atThree, position⟩ := ended
    obtain ⟨state, ran⟩ := Option.isSome_iff_exists.mp completes
    obtain ⟨again, wentAgain, inStates, isBest⟩ := yy_get_previous_state_eq
      { result with yy_current_state := 1, yy_cp := cursor.yy_cp } List.mem_cons_self
      nonzeroRest ran
    rw [answer_of_munch munched rfl] at isBest
    have inTable : (yy_accept[again.yy_current_state]?).isSome := by
      rw [yy_accept_of_mem inStates]
      rfl
    obtain ⟨behind, acted, lastPosition⟩ := yy_find_action_eq inTable isBest
    refine ⟨behind, ?_, lastPosition⟩
    rw [token_of_end matched atThree position, if_neg (by omega), wentAgain, Option.bind_eq_bind,
      Option.bind_some, acted]
    simp only [Option.bind_eq_bind, Option.bind_some, if_neg isNumber]
    rfl

/-- At the end of the input the scanner stays where it is. -/
theorem token_end {text : List UInt8} {cursor : Cursor} (atEnd : cursor.yy_cp = text.length) :
    ∃ behind, token text cursor = some (none, behind) ∧ behind.yy_cp = text.length := by
  obtain ⟨result, matched, atThree, position⟩ := yy_match_end
    { cursor with yy_current_state := 1 } List.mem_cons_self atEnd text.length
  refine ⟨{ result with yy_cp := cursor.yy_cp }, ?_, atEnd⟩
  rw [token_of_end matched atThree position, if_pos (by omega)]

/-! ## The input -/

/-- The numbered rules, with the actions of the numbers. -/
theorem rules_yyaction :
    rules.map (fun rule => (rule.1, yyaction rule.2)) =
      Lexer.locatedRules.map fun rule => (rule.1, some rule.2) := rfl

theorem munch_located (input : List Char) :
    (munch rules input).map (fun found => (found.1, yyaction found.2)) =
      (munch Lexer.locatedRules input).map fun found => (found.1, some found.2) := by
  rw [← munch_map, ← munch_map, rules_yyaction]

/-- Some rule is taken everywhere, and it has an action. -/
theorem munch_total (first : Char) (rest : List Char) :
    ∃ length yy_act action, munch rules (first :: rest) = some (length + 1, yy_act) ∧
      yyaction yy_act = some action ∧
      munch Lexer.locatedRules (first :: rest) = some (length + 1, action) := by
  obtain ⟨length, dropped, munched⟩ := Lexer.munch_total first rest
  rw [← Lexer.locatedRules_drop, munch_map, Option.map_eq_some_iff] at munched
  obtain ⟨⟨_, action⟩, located, same⟩ := munched
  obtain ⟨rfl, -⟩ := Prod.mk.inj same
  have numbered := munch_located (first :: rest)
  rw [located, Option.map_some, Option.map_eq_some_iff] at numbered
  obtain ⟨⟨_, yy_act⟩, found, same⟩ := numbered
  obtain ⟨rfl, isAction⟩ := Prod.mk.inj same
  exact ⟨length, yy_act, action, found, isAction, located⟩

/-- The generated scanner takes what the rules of `lexer.ll` do, to the end of the
text, and does not read outside the buffer or the tables. -/
theorem actions_behind {text : List UInt8} (nonzero : ∀ byte ∈ text, byte ≠ 0) {fuel : ℕ} (cursor : Cursor)
    (within : cursor.yy_cp ≤ text.length) (enough : text.length - cursor.yy_cp < fuel) :
    ∃ last, actions text fuel cursor =
        some (scan Lexer.locatedRules ((text.drop cursor.yy_cp).map char), last) ∧
      last.yy_cp = text.length := by
  induction fuel generalizing cursor with
  | zero => exact absurd enough (Nat.not_lt_zero _)
  | succ fuel ih =>
      rcases Nat.eq_or_lt_of_le within with atEnd | inside
      · obtain ⟨behind, ended, position⟩ := token_end atEnd
        refine ⟨behind, ?_, position⟩
        rw [atEnd, List.drop_length, List.map_nil, scan, actions, ended]
        rfl
      · obtain ⟨first, rest, here⟩ : ∃ first rest, (text.drop cursor.yy_cp).map char = first :: rest :=
          List.exists_cons_of_ne_nil (by simpa using inside)
        obtain ⟨length, yy_act, action, munched, isAction, located⟩ := munch_total first rest
        rw [← here] at munched
        obtain ⟨behind, taken, position⟩ := token_eq nonzero inside munched
        obtain ⟨_, _, found⟩ := mem_of_munch munched
        have short := (matches_of_longest found).1
        rw [List.length_map, List.length_drop] at short
        obtain ⟨last, later, atEnd⟩ := ih behind (by omega) (by omega)
        refine ⟨last, ?_, atEnd⟩
        have isText : ((text.drop cursor.yy_cp).take (behind.yy_cp - cursor.yy_cp)).map char =
            first :: rest.take length := by
          rw [position, Nat.add_sub_cancel_left, List.map_take, here, List.take_succ_cons]
        have isRest : (text.drop behind.yy_cp).map char = rest.drop length := by
          rw [position, ← List.drop_drop, List.map_drop, here, List.drop_succ_cons]
        rw [isRest] at later
        rw [here, scan, located]
        simp only [actions, taken, isAction, later, isText, Option.bind_eq_bind, Option.bind_some]
        rfl

theorem nonzero_of_scan_string (str : List UInt8) : ∀ byte ∈ yy_scan_string str, byte ≠ 0 := by
  intro byte member
  simpa using List.mem_takeWhile_imp member

/-- The generated scanner, on a buffer that `yy_scan_string` made of any string (its
length is an `int`) and with whatever an earlier run left, takes what the rules of
`lexer.ll` do. -/
theorem actions_eq (str : List UInt8) (yy_last_accepting_state yy_last_accepting_cpos : ℕ) :
    ∃ last, actions (yy_scan_string str) ((yy_scan_string str).length + 1)
        ⟨1, 0, yy_last_accepting_state, yy_last_accepting_cpos⟩ =
      some (scan Lexer.locatedRules ((yy_scan_string str).map char), last) := by
  obtain ⟨last, taken, -⟩ := actions_behind (nonzero_of_scan_string str)
    ⟨1, 0, yy_last_accepting_state, yy_last_accepting_cpos⟩ (Nat.zero_le _) (Nat.lt_succ_self _)
  exact ⟨last, taken⟩

end LexYy

end Snowlake
