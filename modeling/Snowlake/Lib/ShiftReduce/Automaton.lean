import Mathlib.Logic.Relation
import Mathlib.Data.List.Basic

/-! # Shift-reduce parsing

Grammars whose rules have semantic actions, with a state that the actions pass
on, and the automaton that parses them bottom-up with a stack of states and
values.  Its tables may be any.
-/

namespace ShiftReduce

variable {σ ρ T N τ V D : Type}

/-! ## Grammars -/

inductive Symbol (T N : Type) where
  | terminal (kind : T)
  | nonterminal (name : N)
  deriving Repr, DecidableEq

/-- The rules of a grammar, one of them for the whole input. -/
structure Rules (ρ T N : Type) where
  all : List ρ
  lhs : ρ → N
  rhs : ρ → List (Symbol T N)
  goal : ρ

/-- The values of tokens, and the semantic actions of the rules. -/
structure Semantics (ρ T τ V D : Type) where
  kind : τ → T
  leaf : τ → V
  act : ρ → List V → D → Option (V × D)

/-- Tokens that the symbols stand for, with the values of the symbols and the
states before the first and after the last action, bottom-up from the left. -/
inductive Derives (g : Rules ρ T N) (m : Semantics ρ T τ V D) :
    List (Symbol T N) → List τ → D → List V → D → Prop
  | nil (state) : Derives g m [] [] state [] state
  | terminal (token) {symbols tokens before values after} :
      Derives g m symbols tokens before values after →
      Derives g m (.terminal (m.kind token) :: symbols) (token :: tokens) before
        (m.leaf token :: values) after
  | nonterminal {rule body before children between value acted symbols tokens values after} :
      rule ∈ g.all → rule ≠ g.goal → Derives g m (g.rhs rule) body before children between →
      m.act rule children between = some (value, acted) →
      Derives g m symbols tokens acted values after →
      Derives g m (.nonterminal (g.lhs rule) :: symbols) (body ++ tokens) before (value :: values) after

/-- The tokens are an input of the grammar. -/
def Sentence (g : Rules ρ T N) (m : Semantics ρ T τ V D) (before : D) (tokens : List τ) : Prop :=
  ∃ values after, Derives g m (g.rhs g.goal) tokens before values after

section Derivations

variable {g : Rules ρ T N} {m : Semantics ρ T τ V D}

namespace Derives

theorem length {symbols : List (Symbol T N)} {tokens : List τ} {before after : D} {values : List V}
    (derives : Derives g m symbols tokens before values after) : values.length = symbols.length := by
  induction derives with
  | nil => rfl
  | terminal _ _ ih => simp [ih]
  | nonterminal _ _ _ _ _ _ ih => simp [ih]

theorem append {left right : List (Symbol T N)} {first second : List τ} {before between after : D}
    {values more : List V} (derives : Derives g m left first before values between)
    (rest : Derives g m right second between more after) :
    Derives g m (left ++ right) (first ++ second) before (values ++ more) after := by
  induction derives with
  | nil => exact rest
  | terminal token _ ih => exact .terminal token (ih rest)
  | nonterminal member notGoal body acted _ _ ih =>
      rw [List.append_assoc]
      exact .nonterminal member notGoal body acted (ih rest)

theorem split {left right : List (Symbol T N)} {tokens : List τ} {before after : D}
    {values : List V} (derives : Derives g m (left ++ right) tokens before values after) :
    ∃ first second between front back, tokens = first ++ second ∧ values = front ++ back ∧
      Derives g m left first before front between ∧ Derives g m right second between back after := by
  induction left generalizing tokens before values with
  | nil => exact ⟨[], tokens, before, [], values, rfl, rfl, .nil _, derives⟩
  | cons symbol left ih =>
      cases derives with
      | terminal token rest =>
          obtain ⟨first, second, between, front, back, rfl, rfl, inLeft, inRight⟩ := ih rest
          exact ⟨token :: first, second, between, _, back, rfl, rfl, .terminal token inLeft, inRight⟩
      | nonterminal member notGoal body acted rest =>
          obtain ⟨first, second, between, front, back, rfl, rfl, inLeft, inRight⟩ := ih rest
          exact ⟨_, second, between, _, back, (List.append_assoc ..).symm, rfl,
            .nonterminal member notGoal body acted inLeft, inRight⟩

theorem of_terminal {kind : T} {symbols : List (Symbol T N)} {tokens : List τ} {before after : D}
    {values : List V} (derives : Derives g m (.terminal kind :: symbols) tokens before values after) :
    ∃ token rest others, m.kind token = kind ∧ tokens = token :: rest ∧
      values = m.leaf token :: others ∧ Derives g m symbols rest before others after := by
  cases derives with
  | terminal token rest => exact ⟨token, _, _, rfl, rfl, rfl, rest⟩

theorem of_nonterminal {name : N} {symbols : List (Symbol T N)} {tokens : List τ} {before after : D}
    {values : List V} (derives : Derives g m (.nonterminal name :: symbols) tokens before values after) :
    ∃ rule ∈ g.all, rule ≠ g.goal ∧ g.lhs rule = name ∧
      ∃ body children between value acted rest others, tokens = body ++ rest ∧ values = value :: others ∧
        Derives g m (g.rhs rule) body before children between ∧
        m.act rule children between = some (value, acted) ∧ Derives g m symbols rest acted others after := by
  cases derives with
  | nonterminal member notGoal body acted rest =>
      exact ⟨_, member, notGoal, rfl, _, _, _, _, _, _, _, rfl, rfl, body, acted, rest⟩

end Derives

/-- The tokens are read as the symbols in every state. -/
def Yields (g : Rules ρ T N) (m : Semantics ρ T τ V D) (symbols : List (Symbol T N))
    (tokens : List τ) : Prop :=
  ∀ before, ∃ values after, Derives g m symbols tokens before values after

/-- No action fails on the values of its right hand side. -/
def ActionsSucceed (g : Rules ρ T N) (m : Semantics ρ T τ V D) : Prop :=
  ∀ rule ∈ g.all, rule ≠ g.goal → ∀ tokens before values after,
    Derives g m (g.rhs rule) tokens before values after → (m.act rule values after).isSome = true

namespace Yields

theorem nil : Yields g m [] [] := fun before => ⟨[], before, .nil before⟩

theorem terminal (token : τ) : Yields g m [.terminal (m.kind token)] [token] :=
  fun before => ⟨_, before, .terminal token (.nil before)⟩

theorem append {left right : List (Symbol T N)} {first second : List τ}
    (inLeft : Yields g m left first) (inRight : Yields g m right second) :
    Yields g m (left ++ right) (first ++ second) := by
  intro before
  obtain ⟨values, between, derives⟩ := inLeft before
  obtain ⟨more, after, rest⟩ := inRight between
  exact ⟨_, after, derives.append rest⟩

theorem nonterminal (succeed : ActionsSucceed g m) {rule : ρ} (member : rule ∈ g.all)
    (notGoal : rule ≠ g.goal) {body : List τ} (yields : Yields g m (g.rhs rule) body) :
    Yields g m [.nonterminal (g.lhs rule)] body := by
  intro before
  obtain ⟨values, after, derives⟩ := yields before
  obtain ⟨⟨value, acted⟩, same⟩ :=
    Option.isSome_iff_exists.mp (succeed rule member notGoal body before values after derives)
  have whole := Derives.nonterminal member notGoal derives same (.nil acted)
  rw [List.append_nil] at whole
  exact ⟨_, acted, whole⟩

end Yields

/-- A derivation that was made in one state can be made in every other. -/
theorem Derives.yields (succeed : ActionsSucceed g m) {symbols : List (Symbol T N)} {tokens : List τ}
    {before after : D} {values : List V} (derives : Derives g m symbols tokens before values after) :
    Yields g m symbols tokens := by
  induction derives with
  | nil => exact .nil
  | terminal token _ ih => exact (Yields.terminal token).append ih
  | nonterminal member notGoal _ _ _ ihBody ihRest =>
      exact (Yields.nonterminal succeed member notGoal ihBody).append ihRest

end Derivations

/-! ## The automaton -/

inductive Action (σ ρ : Type) where
  | shift (target : σ)
  | reduce (rule : ρ)
  | error
  deriving Repr, DecidableEq

/-- The state that an action shifts to. -/
def Action.target? : Action σ ρ → Option σ
  | .shift target => some target
  | .reduce _ | .error => none

theorem Action.target?_isSome_iff {action : Action σ ρ} :
    action.target?.isSome = true ↔ ∃ target, action = .shift target := by
  cases action <;> simp [target?]

structure Automaton (σ ρ T N : Type) where
  start : σ
  final : σ
  action : σ → T → Action σ ρ
  goto : σ → N → σ

/-- The stack without the entry for the start state, its top first, and the
tokens from the lookahead on. -/
structure Config (σ τ V D : Type) where
  stack : List (σ × V)
  input : List τ
  state : D

inductive Outcome (κ : Type) where
  | running (config : κ)
  | accepted (config : κ)
  | rejected (config : κ)
  /-- No token, a stack that is too short, or an action that fails. -/
  | stuck

namespace Automaton

variable (a : Automaton σ ρ T N) (g : Rules ρ T N) (m : Semantics ρ T τ V D)

def top : List (σ × V) → σ
  | [] => a.start
  | (state, _) :: _ => state

@[simp] theorem top_nil : a.top ([] : List (σ × V)) = a.start := rfl

@[simp] theorem top_cons (state : σ) (value : V) (stack : List (σ × V)) :
    a.top ((state, value) :: stack) = state := rfl

/-- The values of the `count` topmost entries, in the order of the input. -/
def handle (count : ℕ) (stack : List (σ × V)) : List V := (stack.take count).reverse.map Prod.snd

variable [DecidableEq σ]

def step (config : Config σ τ V D) : Outcome (Config σ τ V D) :=
  if a.top config.stack = a.final then .accepted config
  else
    match config.input with
    | [] => .stuck
    | token :: rest =>
        match a.action (a.top config.stack) (m.kind token) with
        | .shift target => .running ⟨(target, m.leaf token) :: config.stack, rest, config.state⟩
        | .error => .rejected config
        | .reduce rule =>
            let count := (g.rhs rule).length
            let below := config.stack.drop count
            if config.stack.length < count then .stuck
            else
              match m.act rule (handle count config.stack) config.state with
              | none => .stuck
              | some (value, state) =>
                  .running ⟨(a.goto (a.top below) (g.lhs rule), value) :: below, config.input, state⟩

/-- The outcome of at most the given number of steps. -/
def run : ℕ → Config σ τ V D → Outcome (Config σ τ V D)
  | 0, config => .running config
  | fuel + 1, config =>
      match a.step g m config with
      | .running next => run fuel next
      | outcome => outcome

/-- One step that goes on, with the entries that a reduction pops in front. -/
inductive Moves : Config σ τ V D → Config σ τ V D → Prop
  | shift {stack token rest state target} : a.top stack ≠ a.final →
      a.action (a.top stack) (m.kind token) = .shift target →
      Moves ⟨stack, token :: rest, state⟩ ⟨(target, m.leaf token) :: stack, rest, state⟩
  | reduce {front below : List (σ × V)} {token rest state rule value acted} :
      a.top (front ++ below) ≠ a.final →
      a.action (a.top (front ++ below)) (m.kind token) = .reduce rule →
      front.length = (g.rhs rule).length →
      m.act rule (front.reverse.map Prod.snd) state = some (value, acted) →
      Moves ⟨front ++ below, token :: rest, state⟩
        ⟨(a.goto (a.top below) (g.lhs rule), value) :: below, token :: rest, acted⟩

abbrev Reaches : Config σ τ V D → Config σ τ V D → Prop := Relation.ReflTransGen (a.Moves g m)

variable {a g m}

theorem Moves.step_eq {config next : Config σ τ V D} (moves : a.Moves g m config next) :
    a.step g m config = .running next := by
  cases moves with
  | shift notFinal action => simp only [step, notFinal, if_false, action]
  | @reduce front below _ _ _ rule _ _ notFinal action popped acted =>
      have notShort : ¬ (front ++ below).length < (g.rhs rule).length := by
        rw [List.length_append]
        omega
      simp only [step, notFinal, if_false, action, notShort, handle]
      rw [← popped, List.take_left, List.drop_left, acted]

theorem moves_of_step {config next : Config σ τ V D}
    (stepped : a.step g m config = .running next) : a.Moves g m config next := by
  obtain ⟨stack, input, state⟩ := config
  rw [step] at stepped
  split at stepped
  · cases stepped
  · rename_i notFinal
    dsimp only at stepped
    split at stepped
    · cases stepped
    · rename_i token rest
      split at stepped
      · rename_i target action
        cases stepped
        exact .shift notFinal action
      · cases stepped
      · rename_i rule action
        split at stepped
        · cases stepped
        · rename_i notShort
          split at stepped
          · cases stepped
          · rename_i value acted same
            cases stepped
            have popped := List.length_take_of_le (Nat.not_lt.mp notShort)
            have split := List.take_append_drop (g.rhs rule).length stack
            rw [← split] at notFinal action
            have move : a.Moves g m ⟨_, token :: rest, state⟩ _ := .reduce notFinal action popped same
            rwa [split] at move

theorem step_eq_accepted {config last : Config σ τ V D}
    (stepped : a.step g m config = .accepted last) : last = config ∧ a.top config.stack = a.final := by
  rw [step] at stepped
  split at stepped
  · rename_i final
    cases stepped
    exact ⟨rfl, final⟩
  · split at stepped
    · cases stepped
    · split at stepped
      · cases stepped
      · cases stepped
      · dsimp only at stepped
        split at stepped
        · cases stepped
        · split at stepped <;> cases stepped

theorem step_eq_rejected {config last : Config σ τ V D}
    (stepped : a.step g m config = .rejected last) :
    last = config ∧ a.top config.stack ≠ a.final ∧ ∃ token rest, config.input = token :: rest ∧
      a.action (a.top config.stack) (m.kind token) = .error := by
  rw [step] at stepped
  split at stepped
  · cases stepped
  · rename_i notFinal
    split at stepped
    · cases stepped
    · rename_i token rest isInput
      split at stepped
      · cases stepped
      · rename_i action
        cases stepped
        exact ⟨rfl, notFinal, token, rest, isInput, action⟩
      · dsimp only at stepped
        split at stepped
        · cases stepped
        · split at stepped <;> cases stepped

theorem step_rejects {stack : List (σ × V)} {token : τ} {rest : List τ} {state : D}
    (notFinal : a.top stack ≠ a.final) (action : a.action (a.top stack) (m.kind token) = .error) :
    a.step g m ⟨stack, token :: rest, state⟩ = .rejected ⟨stack, token :: rest, state⟩ := by
  simp only [step, notFinal, if_false, action]

/-- The outcome that the automaton comes to, if it does. -/
def Settles (a : Automaton σ ρ T N) (g : Rules ρ T N) (m : Semantics ρ T τ V D)
    (config : Config σ τ V D) (outcome : Outcome (Config σ τ V D)) : Prop :=
  ∃ last, a.Reaches g m config last ∧ a.step g m last = outcome ∧ ∀ next, outcome ≠ .running next

omit [DecidableEq σ] in
/-- The tokens behind the lookahead do not matter. -/
theorem Moves.local {config next : Config σ τ V D} (moves : a.Moves g m config next) :
    ∃ read, config.input = read ++ next.input ∧ ∀ input, (read = [] → input.head? = next.input.head?) →
      a.Moves g m { config with input := read ++ input } { next with input } := by
  cases moves with
  | @shift _ token _ _ _ notFinal action =>
      exact ⟨[token], rfl, fun input _ => .shift notFinal action⟩
  | reduce notFinal action popped same =>
      refine ⟨[], rfl, fun input sameHead => ?_⟩
      obtain ⟨rest, rfl⟩ := List.head?_eq_some_iff.mp (sameHead rfl)
      exact .reduce notFinal action popped same

omit [DecidableEq σ] in
theorem Reaches.local {config last : Config σ τ V D} (reached : a.Reaches g m config last) {token : τ}
    {rest : List τ} (isInput : last.input = token :: rest) :
    ∃ read, config.input = read ++ token :: rest ∧ ∀ other,
      a.Reaches g m { config with input := read ++ token :: other } { last with input := token :: other } := by
  induction reached using Relation.ReflTransGen.head_induction_on with
  | refl => exact ⟨[], isInput, fun other => .refl⟩
  | head moves _ ih =>
      obtain ⟨read, same, later⟩ := ih
      obtain ⟨first, split, replaced⟩ := moves.local
      refine ⟨first ++ read, by rw [split, same, List.append_assoc], fun other => ?_⟩
      rw [List.append_assoc]
      refine .head (replaced (read ++ token :: other) fun _ => ?_) (later other)
      rw [same]
      cases read <;> rfl

/-- There is one way to go on. -/
theorem Reaches.linear {config left right : Config σ τ V D} (toLeft : a.Reaches g m config left)
    (toRight : a.Reaches g m config right) :
    a.Reaches g m left right ∨ a.Reaches g m right left := by
  refine Relation.ReflTransGen.total_of_right_unique ?_ toLeft toRight
  intro from_ first second moves other
  exact Outcome.running.inj (moves.step_eq.symm.trans other.step_eq)

theorem Settles.unique {config : Config σ τ V D} {outcome other : Outcome (Config σ τ V D)}
    (settles : a.Settles g m config outcome) (settlesOther : a.Settles g m config other) :
    outcome = other := by
  have stays {last next : Config σ τ V D} (reached : a.Reaches g m last next)
      (stops : ∀ next, a.step g m last ≠ .running next) : last = next := by
    rcases Relation.ReflTransGen.cases_head reached with same | ⟨_, moves, _⟩
    · exact same
    · exact absurd moves.step_eq (stops _)
  obtain ⟨last, reached, rfl, stops⟩ := settles
  obtain ⟨next, reachedOther, rfl, stopsOther⟩ := settlesOther
  rcases reached.linear reachedOther with forth | back
  · rw [stays forth stops]
  · rw [stays back stopsOther]

end Automaton

end ShiftReduce
