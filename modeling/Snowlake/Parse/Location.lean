import Mathlib.Data.List.Induction
import Snowlake.Parse.Literals

/-! # Locations

The location of a symbol is exact if it begins at the position of the symbol's
first character in the input of its parse and ends behind its last.  `loc` goes
on where the parse before stopped, and it is stepped at blanks, at newlines and
between calls of `yylex`, but not at ignored characters and headings.
-/

namespace Snowlake

open MaximalMunch Pattern

namespace Position

def advance (position : Position) (c : Char) : Position :=
  if c = '\n' then ⟨position.line + 1, 1⟩ else ⟨position.line, position.column + 1⟩

/-- The position behind a text that starts at `origin`. -/
def behind (text : List Char) (origin : Position) : Position := text.foldl advance origin

theorem behind_append (first second : List Char) (origin : Position) :
    behind (first ++ second) origin = behind second (behind first origin) :=
  List.foldl_append

theorem behind_of_notMem {text : List Char} (oneLine : '\n' ∉ text) (origin : Position) :
    behind text origin = origin.columns text.length := by
  induction text generalizing origin with
  | nil => rfl
  | cons c text ih =>
      rw [List.mem_cons, not_or] at oneLine
      rw [behind, List.foldl_cons, advance, if_neg fun same => oneLine.1 same.symm]
      refine (ih oneLine.2 _).trans ?_
      simp only [columns, List.length_cons, Nat.add_assoc, Nat.add_comm 1]

theorem behind_newlines {text : List Char} (newlines : ∀ c ∈ text, c = '\n') (origin : Position) :
    behind text origin = origin.lines text.length := by
  induction text generalizing origin with
  | nil => rfl
  | cons c text ih =>
      obtain rfl := newlines c (by simp)
      rw [behind, List.foldl_cons, advance, if_pos rfl]
      refine (ih (fun c member => newlines c (List.mem_cons_of_mem _ member)) _).trans ?_
      cases text <;> simp [lines, Nat.add_assoc, Nat.add_comm 1]

/-- Where a text starts is not seen behind it but for the line and, in the first
line, the column. -/
theorem behind_eq_iff (text : List Char) (left right : Position) :
    behind text left = behind text right ↔
      left.line = right.line ∧ ('\n' ∈ text ∨ left.column = right.column) := by
  induction text generalizing left right with
  | nil =>
      cases left
      cases right
      simp [behind]
  | cons c text ih =>
      rw [behind, behind, List.foldl_cons, List.foldl_cons]
      refine (ih _ _).trans ?_
      by_cases newline : c = '\n'
      · simp [advance, newline]
      · simp [advance, newline, Ne.symm newline]

theorem behind_line (text : List Char) (origin : Position) :
    (behind text origin).line = origin.line + text.count '\n' := by
  induction text generalizing origin with
  | nil => rfl
  | cons c text ih =>
      rw [behind, List.foldl_cons, List.count_cons]
      refine (ih _).trans ?_
      by_cases newline : c = '\n'
      · simp only [advance, newline, if_true, beq_self_eq_true]
        omega
      · simp [advance, newline]

theorem columns_inj {left right : Position} {count : Nat} :
    left.columns count = right.columns count ↔ left = right := by
  cases left
  cases right
  simp [columns]

/-- Only the empty text leaves the first position where it is. -/
theorem behind_eq_first_iff (text : List Char) (oneLine : '\n' ∉ text) :
    (behind text {}).column = 1 ↔ text = [] := by
  rw [behind_of_notMem oneLine, ← List.length_eq_zero_iff]
  simp only [columns]
  omega

end Position

open Position

namespace Lexer

def texts (taken : List Match) : List Char := (taken.map (·.2)).flatten

@[simp]
theorem texts_append (first second : List Match) :
    texts (first ++ second) = texts first ++ texts second := by
  simp [texts]

/-! ## One match -/

/-- Newlines are a match of their own, and no rule for them or for blanks makes a token. -/
structure Match.Lined (taken : Match) : Prop where
  nonempty : taken.2 ≠ []
  newlines : taken.1.2 = .lines → ∀ c ∈ taken.2, c = '\n'
  oneLine : taken.1.2 ≠ .lines → '\n' ∉ taken.2
  ignored : taken.1.2 ≠ .keep → taken.1.1 = .ignore

theorem Call.lined (call : Call) : ∀ taken ∈ call.matches, taken.Lined := by
  intro taken member
  obtain ⟨nonempty, pattern, inRules, matched⟩ := matches_of_mem_scan (List.mem_of_mem_take member)
  have used := matched.uses
  obtain ⟨⟨action, locationAction⟩, text⟩ := taken
  rcases List.mem_append.mp inRules with ofToken | ofGap
  · obtain ⟨rule, inTokens, same⟩ := List.mem_map.mp ofToken
    obtain ⟨rfl, rfl, rfl⟩ : rule.1 = pattern ∧ rule.2 = action ∧ LocationAction.keep = locationAction := by
      simpa using same
    refine ⟨nonempty, fun isLines => LocationAction.noConfusion isLines, fun _ newline => ?_, fun notKept => absurd rfl notKept⟩
    exact Bool.noConfusion ((tokenRules_not_uses_gap inTokens rfl).symm.trans (used '\n' newline))
  · simp only [List.mem_cons, Prod.mk.injEq, List.not_mem_nil, or_false] at ofGap
    rcases ofGap with ⟨rfl, rfl, rfl⟩ | ⟨rfl, rfl, rfl⟩ | ⟨rfl, rfl, rfl⟩
    · refine ⟨nonempty, fun isLines => LocationAction.noConfusion isLines, fun _ newline => ?_, fun _ => rfl⟩
      exact absurd (used '\n' newline) (by decide)
    · refine ⟨nonempty, fun _ c member => ?_, fun notLines => absurd rfl notLines, fun _ => rfl⟩
      simpa [plus, uses] using used c member
    · refine ⟨nonempty, fun isLines => LocationAction.noConfusion isLines, fun _ newline => ?_, fun _ => rfl⟩
      exact absurd (used '\n' newline) (by decide)

theorem isToken_iff (taken : Match) (state : LexerState) :
    (state.take taken).1.isSome = true ↔ taken.1.1 ≠ .ignore := by
  unfold LexerState.take
  cases taken.1.1 <;> simp [Action.run]

/-- The position of the scanner moves over the text of the match. -/
theorem take_end {taken : Match} (lined : taken.Lined) (state : LexerState) :
    (state.take taken).2.loc.end = behind taken.2 state.loc.end := by
  unfold LexerState.take
  cases action : taken.1.2 with
  | keep | step =>
      exact (behind_of_notMem (lined.oneLine (by rw [action]; nofun)) _).symm
  | lines =>
      rw [behind_newlines (lined.newlines action)]
      have some : taken.2.length ≠ 0 := fun none => lined.nonempty (List.length_eq_zero_iff.mp none)
      simp [LocationAction.run, Location.lines, Location.columns, Location.step, lines, columns, some]

/-- The location is stepped, but by an ignored character or heading. -/
theorem take_begin (taken : Match) (state : LexerState) :
    (state.take taken).2.loc.begin =
      if taken.1.2 = .keep then state.loc.begin else (state.take taken).2.loc.end := by
  unfold LexerState.take
  cases taken.1.2 <;> rfl

/-- A match that leaves `loc` with the characters it ignores. -/
def Match.Lingers (taken : Match) : Prop := taken.1 = (.ignore, .keep)

instance (taken : Match) : Decidable taken.Lingers := inferInstanceAs (Decidable (_ = _))

theorem symbols_singleton (taken : Match) (state : LexerState) :
    (symbols [taken] state).2.loc =
      if taken.1.1 = .ignore then (state.take taken).2.loc else (state.take taken).2.loc.step := by
  have isToken := isToken_iff taken state
  rw [symbols]
  cases made : state.take taken with
  | mk token next =>
      rw [made] at isToken
      cases token with
      | none =>
          have ignored : taken.1.1 = .ignore := by simpa using isToken
          rw [if_pos ignored]
          rfl
      | some token =>
          have kept : taken.1.1 ≠ .ignore := by simpa using isToken
          rw [if_neg kept]
          rfl

/-! ## The matches of a call -/

/-- Where `loc` stands in a call that began at `origin`. -/
structure Located (origin : Position) (earlier : List Match) (loc : Location) : Prop where
  atEnd : loc.end = behind (texts earlier) origin
  sameLine : loc.begin.line = loc.end.line
  inOrder : loc.begin.column ≤ loc.end.column
  stepped : loc.begin = loc.end ↔ ∀ last ∈ earlier.getLast?, ¬ last.Lingers

theorem Located.of_step {origin : Position} {earlier : List Match} {loc : Location}
    (atEnd : loc.end = behind (texts earlier) origin)
    (stepped : ∀ last ∈ earlier.getLast?, ¬ last.Lingers) : Located origin earlier loc.step :=
  ⟨atEnd, rfl, Nat.le_refl _, ⟨fun _ => stepped, fun _ => rfl⟩⟩

theorem Located.snoc {origin : Position} {earlier : List Match} {state : LexerState} {here : Match}
    (located : Located origin earlier state.loc) (lined : here.Lined) :
    Located origin (earlier ++ [here]) (symbols [here] state).2.loc := by
  have atEnd : (state.take here).2.loc.end = behind (texts (earlier ++ [here])) origin := by
    rw [take_end lined, located.atEnd, texts_append, behind_append]
    simp [texts]
  have begins := take_begin here state
  rw [symbols_singleton]
  by_cases lingers : here.Lingers
  · -- the location grows by the characters of the match
    rw [if_pos (congrArg Prod.fst lingers)]
    rw [if_pos (congrArg Prod.snd lingers)] at begins
    have some : 0 < here.2.length := List.length_pos_iff.mpr lined.nonempty
    have ends := take_end lined state
    rw [behind_of_notMem (lined.oneLine (by rw [lingers]; nofun))] at ends
    have inOrder := located.inOrder
    refine ⟨atEnd, ?_, ?_, ?_⟩
    · rw [begins, ends]
      exact located.sameLine
    · rw [begins, ends]
      simp only [columns]
      omega
    · rw [begins, ends]
      constructor
      · intro same
        have sameColumn := congrArg Position.column same
        simp only [columns] at sameColumn
        omega
      · intro settled
        exact absurd lingers (settled here (by simp))
  · have settled : ∀ last ∈ (earlier ++ [here]).getLast?, ¬ last.Lingers := by
      simpa using lingers
    split
    · have notKept : here.1.2 ≠ .keep := fun kept => lingers (Prod.ext ‹_› kept)
      rw [if_neg notKept] at begins
      have stepped : (state.take here).2.loc = (state.take here).2.loc.step :=
        congrArg (fun first => Location.mk first (state.take here).2.loc.end) begins
      rw [stepped]
      exact .of_step atEnd settled
    · exact .of_step atEnd settled

/-- `loc` before any match of a call. -/
theorem located_symbols {earlier : List Match} (lined : ∀ taken ∈ earlier, taken.Lined)
    (state : LexerState) :
    Located state.loc.end earlier (symbols earlier state.step).2.loc := by
  induction earlier using List.reverseRecOn with
  | nil => exact .of_step rfl (by simp)
  | append_singleton earlier here ih =>
      rw [symbols_append]
      refine (ih fun taken member => lined taken ?_).snoc (lined here ?_)
      · exact List.mem_append_left _ member
      · exact List.mem_append_right _ (List.mem_singleton_self _)

theorem Call.run_end (call : Call) (state : LexerState) :
    (call.run state).2.loc.end = behind (texts call.matches) state.loc.end :=
  (located_symbols call.lined state).atEnd

end Lexer

open Lexer in
/-- A parse goes on behind what the parses before it have read. -/
theorem LexerState.after_end (calls : List Call) (state : LexerState) :
    (state.after calls).loc.end = behind (texts (calls.flatMap Call.matches)) state.loc.end := by
  induction calls generalizing state with
  | nil => rfl
  | cons call rest ih =>
      rw [after, List.foldl_cons, List.flatMap_cons, texts_append, behind_append, ← call.run_end]
      exact ih (call.run state).2

namespace Lexer

/-- The location of the text of `here`, behind the matches `earlier` of its call. -/
def exactLocation (earlier : List Match) (here : Match) : Location :=
  let first := behind (texts earlier) {}
  ⟨first, first.columns here.2.length⟩

/-- Every symbol of the calls has the location of its text, if the process begins
with them. -/
def LocationsExact (calls : List Call) : Prop :=
  ∀ before call after, calls = before ++ call :: after →
    ∀ earlier here later, call.matches = earlier ++ here :: later →
      let made := (symbols earlier (LexerState.after {} before).step).2.take here
      made.1.isSome = true → made.2.loc = exactLocation earlier here

/-- A token is not directly behind an ignored character or heading.  The earlier
parses have read no newline, and none of them has read anything unless there is
a newline before the token. -/
def LocationsPlain (calls : List Call) : Prop :=
  ∀ before call after, calls = before ++ call :: after →
    ∀ earlier here later, call.matches = earlier ++ here :: later → here.1.1 ≠ .ignore →
      (∀ last ∈ earlier.getLast?, ¬ last.Lingers) ∧
        '\n' ∉ texts (before.flatMap Call.matches) ∧
        ('\n' ∈ texts earlier ∨ texts (before.flatMap Call.matches) = [])

/-- The location of a token is exact if `loc` is stepped and the call began at
the first position, but for the column if there is a newline. -/
theorem exact_at_iff {origin : Position} {earlier : List Match} {state : LexerState} {here : Match}
    (located : Located origin earlier state.loc) (lined : here.Lined) (isToken : here.1.1 ≠ .ignore) :
    (state.take here).2.loc = exactLocation earlier here ↔
      (∀ last ∈ earlier.getLast?, ¬ last.Lingers) ∧
        origin.line = 1 ∧ ('\n' ∈ texts earlier ∨ origin.column = 1) := by
  have kept : here.1.2 = .keep := by
    by_contra notKept
    exact isToken (lined.ignored notKept)
  have begins := take_begin here state
  rw [if_pos kept] at begins
  have ends := take_end lined state
  rw [behind_of_notMem (lined.oneLine (by rw [kept]; nofun))] at ends
  have same : (state.take here).2.loc = exactLocation earlier here ↔
      state.loc.begin = behind (texts earlier) {} ∧ state.loc.end = behind (texts earlier) {} := by
    rw [← @columns_inj state.loc.end _ here.2.length, ← ends, ← begins]
    exact Location.mk.injEq .. ▸ Iff.rfl
  have origins := behind_eq_iff (texts earlier) origin {}
  rw [same, ← located.stepped, ← origins, ← located.atEnd]
  constructor
  · intro ⟨atBegin, atEnd⟩
    exact ⟨atBegin.trans atEnd.symm, atEnd⟩
  · intro ⟨stepped, atEnd⟩
    exact ⟨stepped.trans atEnd, atEnd⟩

/-- Where a call begins that has `text` read before it. -/
theorem behind_first_iff (text : List Char) (unlessNewline : Prop) :
    (behind text {}).line = 1 ∧ (unlessNewline ∨ (behind text {}).column = 1) ↔
      '\n' ∉ text ∧ (unlessNewline ∨ text = []) := by
  have sameLine : (behind text {}).line = 1 ↔ '\n' ∉ text := by
    rw [behind_line, ← List.count_eq_zero]
    simp
  rw [sameLine]
  refine and_congr_right fun oneLine => ?_
  rw [behind_eq_first_iff text oneLine]

theorem exact_in_call_iff (before : List Call) {call : Call} {earlier later : List Match}
    {here : Match} (inCall : call.matches = earlier ++ here :: later) (isToken : here.1.1 ≠ .ignore) :
    ((symbols earlier (LexerState.after {} before).step).2.take here).2.loc =
        exactLocation earlier here ↔
      (∀ last ∈ earlier.getLast?, ¬ last.Lingers) ∧
        '\n' ∉ texts (before.flatMap Call.matches) ∧
        ('\n' ∈ texts earlier ∨ texts (before.flatMap Call.matches) = []) := by
  have lined : ∀ taken ∈ earlier ++ here :: later, taken.Lined := inCall ▸ call.lined
  have located := located_symbols (fun taken member => lined taken (List.mem_append_left _ member))
    (LexerState.after {} before)
  rw [exact_at_iff located (lined here (by simp)) isToken, LexerState.after_end]
  exact and_congr_right fun _ => behind_first_iff _ _

theorem locationsExact_iff (calls : List Call) : LocationsExact calls ↔ LocationsPlain calls := by
  constructor
  · intro exact before call after split earlier here later inCall isToken
    refine (exact_in_call_iff before inCall isToken).mp ?_
    exact exact before call after split earlier here later inCall ((isToken_iff ..).mpr isToken)
  · intro plain before call after split earlier here later inCall made token
    have isToken := (isToken_iff ..).mp token
    refine (exact_in_call_iff before inCall isToken).mpr ?_
    exact plain before call after split earlier here later inCall isToken

/-- A parse of `#a`, which fails at `a`. -/
def ignoredCall : Call := ⟨['#', 'a'], 2⟩

/-- A parse of `a`, which fails there. -/
def wordCall : Call := ⟨['a'], 1⟩

/-- The token of `#a` is said to begin at the `#`, that of a second parse of `a`
behind the first one. -/
theorem ignored_and_second_not_exact :
    ¬ LocationsExact [ignoredCall] ∧ ¬ LocationsExact [wordCall, wordCall] := by
  have ignored : isScan locatedRules [((.ignore, .keep), ['#']), ((.makeIdentifier, .keep), ['a'])] =
      true := by decide
  have word : isScan locatedRules [((.makeIdentifier, .keep), ['a'])] = true := by decide
  have ignoredMatches : ignoredCall.matches = _ := congrArg (List.take 2) (scan_of_isScan ignored)
  have wordMatches : wordCall.matches = _ := congrArg (List.take 1) (scan_of_isScan word)
  constructor
  · intro exact
    have location := exact [] ignoredCall [] rfl [_] _ [] ignoredMatches
    exact absurd (location rfl) (by decide)
  · intro exact
    have location := exact [wordCall] wordCall [] rfl [] _ [] wordMatches
    rw [LexerState.after, List.foldl_cons, List.foldl_nil, Call.run, wordMatches] at location
    exact absurd (location rfl) (by decide)

end Lexer

end Snowlake
