import Snowlake.Lib.ShiftReduce.Automaton

/-! # Items

What is known of the states of a shift-reduce automaton: the rules they are in
the middle of.  If the tables carry out every item then the automaton accepts
all sentences, if they do nothing else then it accepts nothing but sentences.
-/

namespace ShiftReduce

variable {σ ρ T N τ V D : Type}

/-- What is known of the states: the rules they are in the middle of, with the
number of symbols behind them, and the nonterminals that may come next. -/
structure Certificate (σ ρ T N : Type) where
  kernel : σ → List (ρ × ℕ)
  predicted : σ → List N
  nullable : N → Bool
  first : N → List T
  /-- The tokens behind a nonterminal; `none` is the end of the input. -/
  follow : N → List (Option T)
  /-- The kind of the last token of an input. -/
  last : T

namespace Certificate

variable (c : Certificate σ ρ T N) (g : Rules ρ T N) (a : Automaton σ ρ T N)

/-- The state is in the middle of the rule, behind `behind` symbols. -/
def Item (state : σ) (rule : ρ) (behind : ℕ) : Prop :=
  rule ∈ g.all ∧ ((rule, behind) ∈ c.kernel state ∨ behind = 0 ∧ g.lhs rule ∈ c.predicted state)

/-- The tokens that the symbols may start with, before `after`. -/
def firsts (after : List (Option T)) : List (Symbol T N) → List (Option T)
  | [] => after
  | .terminal kind :: _ => [some kind]
  | .nonterminal name :: symbols =>
      (c.first name).map some ++ if c.nullable name then firsts after symbols else []

def allNullable : List (Symbol T N) → Bool
  | [] => true
  | .terminal _ :: _ => false
  | .nonterminal name :: symbols => c.nullable name && allNullable symbols

/-- The symbol that an item has next. -/
def next (rule : ρ) (behind : ℕ) : Option (Symbol T N) := (g.rhs rule)[behind]?

/-- Every item is carried out by the tables. -/
structure Complete : Prop where
  goal_mem : g.goal ∈ g.all
  initial : (g.goal, 0) ∈ c.kernel a.start
  closed : ∀ {state rule behind name}, c.Item g state rule behind →
    next g rule behind = some (.nonterminal name) → name ∈ c.predicted state
  shift : ∀ {state rule behind kind}, c.Item g state rule behind →
    next g rule behind = some (.terminal kind) → state ≠ a.final ∧
      ∃ target, a.action state kind = .shift target ∧ (rule, behind + 1) ∈ c.kernel target
  goto : ∀ {state rule behind name}, c.Item g state rule behind →
    next g rule behind = some (.nonterminal name) →
      (rule, behind + 1) ∈ c.kernel (a.goto state name)
  reduce : ∀ {state rule}, c.Item g state rule (g.rhs rule).length → rule ≠ g.goal →
    state ≠ a.final ∧ ∀ ahead ∈ c.follow (g.lhs rule),
      ∃ kind, ahead = some kind ∧ a.action state kind = .reduce rule
  accept : ∀ {state}, c.Item g state g.goal (g.rhs g.goal).length → state = a.final
  nullable : ∀ {rule}, rule ∈ g.all → c.allNullable (g.rhs rule) = true →
    c.nullable (g.lhs rule) = true
  first : ∀ {rule kind}, rule ∈ g.all → some kind ∈ c.firsts [] (g.rhs rule) →
    kind ∈ c.first (g.lhs rule)
  follow : ∀ {rule front name back}, rule ∈ g.all → g.rhs rule = front ++ .nonterminal name :: back →
    c.firsts (c.follow (g.lhs rule)) back ⊆ c.follow name
  goal_last : none ∈ c.follow (g.lhs g.goal)

variable {c g a}

theorem Item.of_kernel {state : σ} {rule : ρ} {behind : ℕ} (member : rule ∈ g.all)
    (inKernel : (rule, behind) ∈ c.kernel state) : c.Item g state rule behind :=
  ⟨member, .inl inKernel⟩

/-- What the symbols start with is their own, or they are all nullable. -/
theorem mem_firsts {after : List (Option T)} {symbols : List (Symbol T N)} {ahead : Option T}
    (member : ahead ∈ c.firsts after symbols) :
    (∃ kind, ahead = some kind ∧ some kind ∈ c.firsts [] symbols) ∨
      c.allNullable symbols = true ∧ ahead ∈ after := by
  induction symbols with
  | nil => exact .inr ⟨rfl, member⟩
  | cons symbol symbols ih =>
      cases symbol with
      | terminal kind =>
          obtain rfl := List.mem_singleton.mp member
          exact .inl ⟨kind, rfl, List.mem_singleton_self _⟩
      | nonterminal name =>
          rw [firsts] at member
          rcases List.mem_append.mp member with own | later
          · obtain ⟨kind, inFirst, rfl⟩ := List.mem_map.mp own
            exact .inl ⟨kind, rfl, List.mem_append_left _ (List.mem_map_of_mem inFirst)⟩
          · split at later
            · rename_i isNullable
              rcases ih later with ⟨kind, rfl, inRest⟩ | ⟨restNullable, inAfter⟩
              · refine .inl ⟨kind, rfl, List.mem_append_right _ ?_⟩
                rwa [if_pos isNullable]
              · refine .inr ⟨?_, inAfter⟩
                rw [allNullable, isNullable]
                exact restNullable
            · cases later

/-- The lookahead behind the tokens `rest` come after. -/
def ahead (m : Semantics ρ T τ V D) (rest : List τ) : Option T := rest.head?.map m.kind

namespace Complete

variable {m : Semantics ρ T τ V D}

theorem ahead_mem_firsts (complete : c.Complete g a) {symbols : List (Symbol T N)} {tokens : List τ}
    {before after : D} {values : List V} (derives : Derives g m symbols tokens before values after)
    {behind : List (Option T)} {rest : List τ} (follows : ahead m rest ∈ behind) :
    ahead m (tokens ++ rest) ∈ c.firsts behind symbols := by
  induction derives generalizing rest behind with
  | nil => exact follows
  | terminal token => exact List.mem_singleton_self _
  | nonterminal member _ _ _ _ ihBody ihRest =>
      rw [List.append_assoc]
      rcases mem_firsts (ihBody (ihRest follows)) with ⟨kind, same, inBody⟩ | ⟨bodyNullable, later⟩
      · rw [same]
        exact List.mem_append_left _ (List.mem_map_of_mem (complete.first member inBody))
      · refine List.mem_append_right _ ?_
        rw [if_pos (complete.nullable member bodyNullable)]
        exact later

theorem next_append {rule : ρ} {front back : List (Symbol T N)} {symbol : Symbol T N}
    (split : g.rhs rule = front ++ symbol :: back) : next g rule front.length = some symbol := by
  rw [next, split, List.getElem?_append_right (Nat.le_refl _), Nat.sub_self, List.getElem?_cons_zero]

/-- A state in front of the symbols reads the tokens derived from them, whatever
comes behind that may follow. -/
theorem reads (complete : c.Complete g a) {symbols : List (Symbol T N)} {tokens : List τ}
    {before after : D} {values : List V} (derives : Derives g m symbols tokens before values after)
    {stack : List (σ × V)} {rule : ρ} {front : List (Symbol T N)} {rest : List τ}
    (item : c.Item g (a.top stack) rule front.length) (split : g.rhs rule = front ++ symbols)
    (follows : ahead m rest ∈ c.follow (g.lhs rule)) :
    ∃ pushed : List (σ × V), pushed.reverse.map Prod.snd = values ∧
      a.Reaches g m ⟨stack, tokens ++ rest, before⟩ ⟨pushed ++ stack, rest, after⟩ ∧
      c.Item g (a.top (pushed ++ stack)) rule (g.rhs rule).length := by
  induction derives generalizing stack rule front rest with
  | nil =>
      refine ⟨[], rfl, .refl, ?_⟩
      rwa [split, List.append_nil]
  | @terminal token symbols tokens before values after derives ih =>
      obtain ⟨notFinal, target, action, inKernel⟩ := complete.shift item (next_append split)
      have moves : a.Moves g m ⟨stack, token :: (tokens ++ rest), before⟩
          ⟨(target, m.leaf token) :: stack, tokens ++ rest, before⟩ := .shift notFinal action
      have behind : c.Item g (a.top ((target, m.leaf token) :: stack)) rule
          (front ++ [Symbol.terminal (m.kind token)]).length :=
        .of_kernel item.1 (by simpa using inKernel)
      obtain ⟨pushed, same, reached, atEnd⟩ := ih behind (by simp [split]) follows
      refine ⟨pushed ++ [(target, m.leaf token)], by simp [same], ?_, ?_⟩
      · simpa using Relation.ReflTransGen.head moves reached
      · simpa using atEnd
  | @nonterminal used body before children between value acted symbols tokens values after member
      notGoal bodyDerives same restDerives ihBody ihRest =>
      have inPredicted := complete.closed item (next_append split)
      have start : c.Item g (a.top stack) used ([] : List (Symbol T N)).length :=
        ⟨member, .inr ⟨rfl, inPredicted⟩⟩
      have followsBody : ahead m (tokens ++ rest) ∈ c.follow (g.lhs used) :=
        complete.follow item.1 split (complete.ahead_mem_firsts restDerives follows)
      obtain ⟨pushed, rfl, reachedBody, atBodyEnd⟩ := ihBody start (List.nil_append _).symm followsBody
      -- the lookahead is one that the state reduces at
      obtain ⟨notFinal, reduces⟩ := complete.reduce atBodyEnd notGoal
      obtain ⟨kind, isAhead, action⟩ := reduces _ followsBody
      obtain ⟨token, more, isRest, rfl⟩ : ∃ token more, tokens ++ rest = token :: more ∧
          m.kind token = kind := by
        cases split : tokens ++ rest with
        | nil =>
            rw [split] at isAhead
            cases isAhead
        | cons token more =>
            rw [split] at isAhead
            exact ⟨token, more, rfl, Option.some.inj isAhead⟩
      have popped : pushed.length = (g.rhs used).length := by
        simpa using bodyDerives.length
      have moves : a.Moves g m ⟨pushed ++ stack, tokens ++ rest, between⟩
          ⟨(a.goto (a.top stack) (g.lhs used), value) :: stack, tokens ++ rest, acted⟩ := by
        rw [isRest]
        exact .reduce notFinal action popped same
      have behind : c.Item g (a.top ((a.goto (a.top stack) (g.lhs used), value) :: stack)) rule
          (front ++ [Symbol.nonterminal (g.lhs used)]).length :=
        .of_kernel item.1 (by simpa using complete.goto item (next_append split))
      obtain ⟨later, rfl, reachedRest, atEnd⟩ := ihRest behind (by simp [split]) follows
      refine ⟨later ++ [(a.goto (a.top stack) (g.lhs used), value)], by simp, ?_, ?_⟩
      · have reached := reachedBody.trans (.head moves reachedRest)
        simpa using reached
      · simpa using atEnd

/-- Every sentence is accepted, with its value. -/
theorem accepts [DecidableEq σ] (complete : c.Complete g a) {tokens : List τ} {before after : D} {values : List V}
    (derives : Derives g m (g.rhs g.goal) tokens before values after) :
    ∃ stack : List (σ × V), stack.reverse.map Prod.snd = values ∧
      a.Settles g m ⟨[], tokens, before⟩ (.accepted ⟨stack, [], after⟩) := by
  have start : c.Item g (a.top ([] : List (σ × V))) g.goal ([] : List (Symbol T N)).length :=
    .of_kernel complete.goal_mem complete.initial
  have follows : ahead m ([] : List τ) ∈ c.follow (g.lhs g.goal) := complete.goal_last
  obtain ⟨stack, same, reached, atEnd⟩ :=
    complete.reads derives start (List.nil_append _).symm follows
  rw [List.append_nil, List.append_nil] at reached
  rw [List.append_nil] at atEnd
  refine ⟨stack, same, ⟨stack, [], after⟩, reached, ?_, nofun⟩
  rw [Automaton.step, if_pos (complete.accept atEnd)]

end Complete

/-! ## What the stack stands for -/

/-- The state `target` is entered from `state` with the symbol: its kernel are
items of `state` that the symbol was next of. -/
def Entered (c : Certificate σ ρ T N) (g : Rules ρ T N) (state : σ) (symbol : Symbol T N) (target : σ) :
    Prop :=
  c.kernel target ≠ [] ∧ ∀ rule behind, (rule, behind) ∈ c.kernel target →
    ∃ before, behind = before + 1 ∧ next g rule before = some symbol ∧ c.Item g state rule before

/-- The tables do nothing but to carry out items. -/
structure Sound (c : Certificate σ ρ T N) (g : Rules ρ T N) (a : Automaton σ ρ T N) : Prop where
  kernel_mem : ∀ {state rule behind}, (rule, behind) ∈ c.kernel state → rule ∈ g.all
  initial : c.kernel a.start = [(g.goal, 0)]
  goal_unpredicted : ∀ {state}, g.lhs g.goal ∉ c.predicted state
  shift_back : ∀ {state kind target}, c.kernel state ≠ [] → a.action state kind = .shift target →
    c.Entered g state (.terminal kind) target
  goto_back : ∀ {state name}, name ∈ c.predicted state →
    c.Entered g state (.nonterminal name) (a.goto state name)
  reduce_back : ∀ {state kind rule}, c.kernel state ≠ [] → state ≠ a.final →
    a.action state kind = .reduce rule → c.Item g state rule (g.rhs rule).length ∧ rule ≠ g.goal
  predicted_back : ∀ {state front name back}, c.predicted state = front ++ name :: back →
    ∃ rule ∈ g.all, ∃ behind, next g rule behind = some (.nonterminal name) ∧
      ((rule, behind) ∈ c.kernel state ∨ behind = 0 ∧ g.lhs rule ∈ front)
  accept_back : c.Item g a.final g.goal (g.rhs g.goal).length
  start_ne_final : a.start ≠ a.final
  goto_ne_final : ∀ {state name}, name ∈ c.predicted state → a.goto state name ≠ a.final
  shift_final_iff : ∀ {state kind target}, c.kernel state ≠ [] → a.action state kind = .shift target →
    (target = a.final ↔ kind = c.last)

/-- The symbols of the entries of a stack, each state entered with its symbol. -/
inductive Stacked (c : Certificate σ ρ T N) (g : Rules ρ T N) (a : Automaton σ ρ T N) :
    List (σ × V) → List (Symbol T N) → Prop
  | nil : Stacked c g a [] []
  | push {stack symbols symbol target} (value) : Stacked c g a stack symbols →
      c.Entered g (a.top stack) symbol target →
      Stacked c g a ((target, value) :: stack) (symbol :: symbols)

namespace Stacked

variable {stack : List (σ × V)} {symbols : List (Symbol T N)}

theorem kernel_ne_nil (sound : c.Sound g a) (stacked : c.Stacked g a stack symbols) :
    c.kernel (a.top stack) ≠ [] := by
  cases stacked with
  | nil => simp [sound.initial]
  | push _ _ entered => exact entered.1

theorem alive (stacked : c.Stacked g a stack symbols) : ∀ entry ∈ stack, c.kernel entry.1 ≠ [] := by
  induction stacked with
  | nil => nofun
  | push _ _ entered ih =>
      intro entry member
      rcases List.mem_cons.mp member with rfl | inRest
      · exact entered.1
      · exact ih entry inRest

/-- A kernel is behind a symbol, but for that of the start state. -/
theorem kernel_zero (sound : c.Sound g a) (stacked : c.Stacked g a stack symbols) {rule : ρ}
    (member : (rule, 0) ∈ c.kernel (a.top stack)) : rule = g.goal ∧ stack = [] := by
  cases stacked with
  | nil =>
      rw [Automaton.top_nil, sound.initial] at member
      exact ⟨(Prod.mk.inj (List.mem_singleton.mp member)).1, rfl⟩
  | push _ _ entered =>
      obtain ⟨_, impossible, -⟩ := entered.2 _ _ member
      cases impossible

theorem predicted_of_start (sound : c.Sound g a) (stacked : c.Stacked g a stack symbols) {rule : ρ}
    (item : c.Item g (a.top stack) rule 0) (notGoal : rule ≠ g.goal) :
    g.lhs rule ∈ c.predicted (a.top stack) := by
  rcases item.2 with inKernel | ⟨-, predicted⟩
  · exact absurd (stacked.kernel_zero sound inKernel).1 notGoal
  · exact predicted

/-- Behind the symbols of an item lies the state that the rule begins in. -/
theorem begins (sound : c.Sound g a) (stacked : c.Stacked g a stack symbols) {rule : ρ} {behind : ℕ}
    (item : c.Item g (a.top stack) rule behind) :
    ∃ front below rest, stack = front ++ below ∧ front.length = behind ∧
      symbols = ((g.rhs rule).take behind).reverse ++ rest ∧ c.Stacked g a below rest ∧
      c.Item g (a.top below) rule 0 := by
  induction behind generalizing stack symbols with
  | zero => exact ⟨[], stack, symbols, rfl, rfl, by simp, stacked, item⟩
  | succ behind ih =>
      rcases item.2 with inKernel | ⟨impossible, -⟩
      · cases stacked with
        | nil =>
            rw [Automaton.top_nil, sound.initial] at inKernel
            simp at inKernel
        | @push stack symbols symbol target value stacked entered =>
            obtain ⟨_, ⟨⟩, isNext, before⟩ := entered.2 _ _ inKernel
            obtain ⟨front, below, rest, rfl, rfl, rfl, stackedBelow, start⟩ := ih stacked before
            refine ⟨(target, value) :: front, below, rest, rfl, rfl, ?_, stackedBelow, start⟩
            rw [next] at isNext
            rw [List.take_add_one, isNext]
            simp
      · cases impossible

/-- What a reduction finds on the stack: the symbols of its right hand side, on
a state that predicts the left hand side. -/
theorem handle (sound : c.Sound g a) (stacked : c.Stacked g a stack symbols) {kind : T} {rule : ρ}
    (notFinal : a.top stack ≠ a.final) (action : a.action (a.top stack) kind = .reduce rule) :
    c.Item g (a.top stack) rule (g.rhs rule).length ∧ rule ≠ g.goal ∧
      ∃ front below rest, stack = front ++ below ∧ front.length = (g.rhs rule).length ∧
        symbols = (g.rhs rule).reverse ++ rest ∧ c.Stacked g a below rest ∧
        g.lhs rule ∈ c.predicted (a.top below) := by
  obtain ⟨item, notGoal⟩ := sound.reduce_back (stacked.kernel_ne_nil sound) notFinal action
  obtain ⟨front, below, rest, split, popped, rfl, stackedBelow, start⟩ := stacked.begins sound item
  rw [List.take_length]
  exact ⟨item, notGoal, front, below, rest, split, popped, rfl, stackedBelow,
    stackedBelow.predicted_of_start sound start notGoal⟩

end Stacked

/-- The entries of the stack stand for the tokens that are read. -/
def Parsed (c : Certificate σ ρ T N) (g : Rules ρ T N) (a : Automaton σ ρ T N)
    (m : Semantics ρ T τ V D) (before : D) (tokens : List τ) (config : Config σ τ V D) : Prop :=
  ∃ symbols, c.Stacked g a config.stack symbols ∧
    Derives g m symbols.reverse tokens before (config.stack.reverse.map Prod.snd) config.state

namespace Parsed

variable {m : Semantics ρ T τ V D} {before : D} {tokens : List τ} {config next : Config σ τ V D}

theorem initial (before : D) (input : List τ) :
    c.Parsed g a m before [] ⟨([] : List (σ × V)), input, before⟩ :=
  ⟨[], .nil, .nil before⟩

/-- The values of the right hand side that a reduction pops, and the tokens that
they stand for. -/
theorem handle (sound : c.Sound g a) (parsed : c.Parsed g a m before tokens config) {kind : T} {rule : ρ}
    (notFinal : a.top config.stack ≠ a.final) (action : a.action (a.top config.stack) kind = .reduce rule) :
    rule ∈ g.all ∧ rule ≠ g.goal ∧ ∃ front below rest first second between,
      config.stack = front ++ below ∧ front.length = (g.rhs rule).length ∧ c.Stacked g a below rest ∧
      g.lhs rule ∈ c.predicted (a.top below) ∧ tokens = first ++ second ∧
      Derives g m rest.reverse first before (below.reverse.map Prod.snd) between ∧
      Derives g m (g.rhs rule) second between (front.reverse.map Prod.snd) config.state := by
  obtain ⟨symbols, stacked, derives⟩ := parsed
  obtain ⟨item, notGoal, front, below, rest, split, popped, rfl, stackedBelow, predicted⟩ :=
    stacked.handle sound notFinal action
  rw [List.reverse_append, List.reverse_reverse] at derives
  obtain ⟨first, second, between, values, children, rfl, same, inRest, inRule⟩ := derives.split
  have sameLength : children.length = (front.reverse.map Prod.snd).length := by
    rw [inRule.length, List.length_map, List.length_reverse, popped]
  rw [split, List.reverse_append, List.map_append] at same
  obtain ⟨rfl, rfl⟩ := List.append_inj' same sameLength.symm
  exact ⟨item.1, notGoal, front, below, rest, first, second, between, split, popped, stackedBelow, predicted,
    rfl, inRest, inRule⟩

theorem step (sound : c.Sound g a) (parsed : c.Parsed g a m before tokens config)
    (moves : a.Moves g m config next) :
    ∃ read, c.Parsed g a m before read next ∧ read ++ next.input = tokens ++ config.input := by
  cases moves with
  | @shift stack token rest state target notFinal action =>
      obtain ⟨symbols, stacked, derives⟩ := parsed
      have entered := sound.shift_back (stacked.kernel_ne_nil sound) action
      refine ⟨tokens ++ [token], ⟨_, stacked.push (m.leaf token) entered, ?_⟩, by simp⟩
      have whole := derives.append (.terminal token (.nil state))
      simpa using whole
  | @reduce front below token rest state rule value acted notFinal action popped same =>
      obtain ⟨member, notGoal, other, otherBelow, symbols, first, second, between, split, poppedOther,
        stacked, predicted, rfl, inRest, inRule⟩ := parsed.handle sound notFinal action
      obtain ⟨rfl, rfl⟩ := List.append_inj split (popped.trans poppedOther.symm)
      refine ⟨first ++ second, ⟨_, stacked.push value (sound.goto_back predicted), ?_⟩, rfl⟩
      have whole := inRest.append (.nonterminal member notGoal inRule same (.nil acted))
      simpa using whole

/-- What is read and what is left are the input, all the way. -/
theorem reaches (sound : c.Sound g a) (parsed : c.Parsed g a m before tokens config)
    (reached : a.Reaches g m config next) :
    ∃ read, c.Parsed g a m before read next ∧ read ++ next.input = tokens ++ config.input := by
  induction reached with
  | refl => exact ⟨tokens, parsed, rfl⟩
  | tail _ moves ih =>
      obtain ⟨read, parsed, same⟩ := ih
      obtain ⟨more, parsedNext, sameNext⟩ := parsed.step sound moves
      exact ⟨more, parsedNext, sameNext.trans same⟩

/-- The stack of a final state is the goal. -/
theorem derives_of_final (sound : c.Sound g a) (parsed : c.Parsed g a m before tokens config)
    (final : a.top config.stack = a.final) :
    Derives g m (g.rhs g.goal) tokens before (config.stack.reverse.map Prod.snd) config.state := by
  obtain ⟨symbols, stacked, derives⟩ := parsed
  obtain ⟨front, below, rest, split, popped, rfl, stackedBelow, start⟩ :=
    stacked.begins sound (final ▸ sound.accept_back)
  have bottom : below = [] := by
    rcases start.2 with inKernel | ⟨-, predicted⟩
    · exact (stackedBelow.kernel_zero sound inKernel).2
    · exact absurd predicted sound.goal_unpredicted
  subst bottom
  cases stackedBelow
  simpa using derives

/-- A stack that stands for tokens is never too short, nor does an action fail. -/
theorem step_ne_stuck [DecidableEq σ] (sound : c.Sound g a) (succeed : ActionsSucceed g m)
    (parsed : c.Parsed g a m before tokens config) (goesOn : config.input ≠ []) :
    a.step g m config ≠ .stuck := by
  obtain ⟨stack, input, state⟩ := config
  cases input with
  | nil => exact absurd rfl goesOn
  | cons token rest =>
      rw [Automaton.step]
      split
      · rintro ⟨⟩
      · rename_i notFinal
        dsimp only
        split
        · rintro ⟨⟩
        · rintro ⟨⟩
        · rename_i rule action
          obtain ⟨member, notGoal, front, below, _, _, second, between, rfl, popped, _, _, _, _, inRule⟩ :=
            parsed.handle sound notFinal action
          have notShort : ¬ (front ++ below).length < (g.rhs rule).length := by
            rw [List.length_append]
            omega
          obtain ⟨⟨value, acted⟩, same⟩ :=
            Option.isSome_iff_exists.mp (succeed rule member notGoal _ _ _ _ inRule)
          rw [if_neg notShort, Automaton.handle, ← popped, List.take_left, same]
          rintro ⟨⟩

end Parsed

/-- Only sentences are accepted. -/
theorem Sound.sentence [DecidableEq σ] (sound : c.Sound g a) {m : Semantics ρ T τ V D}
    {tokens : List τ} {before : D} {last : Config σ τ V D}
    (settles : a.Settles g m ⟨[], tokens, before⟩ (.accepted last)) :
    ∃ read, read ++ last.input = tokens ∧
      Derives g m (g.rhs g.goal) read before (last.stack.reverse.map Prod.snd) last.state := by
  obtain ⟨config, reached, stepped, -⟩ := settles
  obtain ⟨read, parsed, same⟩ := (Parsed.initial before tokens).reaches sound reached
  obtain ⟨rfl, final⟩ := Automaton.step_eq_accepted stepped
  exact ⟨read, same, parsed.derives_of_final sound final⟩

end Certificate

end ShiftReduce
