import Snowlake.Lib.ShiftReduce.Items

/-! # Runs of a shift-reduce automaton

A run comes to an end after a number of steps that is linear in the length of
the input, and it stops at the first token that no sentence goes on with.
-/

namespace ShiftReduce

variable {σ ρ T N τ V D : Type}

namespace Certificate

variable {g : Rules ρ T N} {a : Automaton σ ρ T N} {c : Certificate σ ρ T N}

/-! ## The end of a run -/

/-- The tokens of an input end with a token that no other is like. -/
def Closed (c : Certificate σ ρ T N) (m : Semantics ρ T τ V D) (tokens : List τ) : Prop :=
  ∃ front token, tokens = front ++ [token] ∧ m.kind token = c.last ∧ ∀ other ∈ front, m.kind other ≠ c.last

theorem Closed.rest_nil_iff {m : Semantics ρ T τ V D} {tokens read rest : List τ} {token : τ}
    (closed : c.Closed m tokens) (split : read ++ token :: rest = tokens) :
    rest = [] ↔ m.kind token = c.last := by
  obtain ⟨front, last, rfl, isLast, others⟩ := closed
  constructor
  · rintro rfl
    obtain ⟨-, same⟩ := List.append_inj' split rfl
    obtain rfl := List.singleton_inj.mp same
    exact isLast
  · intro likeLast
    rcases List.eq_nil_or_concat rest with empty | ⟨init, final, rfl⟩
    · exact empty
    · rw [List.concat_eq_append, ← List.cons_append, ← List.append_assoc] at split
      obtain ⟨rfl, -⟩ := List.append_inj' split rfl
      exact absurd likeLast (others token (by simp))

/-- The input is read to its end exactly when the automaton is in its final state. -/
theorem Sound.final_iff (sound : c.Sound g a) {m : Semantics ρ T τ V D} {tokens : List τ} {before : D}
    (closed : c.Closed m tokens) {config : Config σ τ V D}
    (reached : a.Reaches g m ⟨[], tokens, before⟩ config) :
    config.input = [] ↔ a.top config.stack = a.final := by
  induction reached with
  | refl =>
      obtain ⟨front, token, rfl, -⟩ := closed
      simp [sound.start_ne_final]
  | tail earlier moves ih =>
      obtain ⟨read, parsed, same⟩ := (Parsed.initial before tokens).reaches sound earlier
      cases moves with
      | shift notFinal action =>
          obtain ⟨symbols, stacked, -⟩ := parsed
          rw [Automaton.top_cons, sound.shift_final_iff (stacked.kernel_ne_nil sound) action]
          exact closed.rest_nil_iff same
      | reduce notFinal action popped acted =>
          obtain ⟨-, -, front, below, _, _, _, _, split, poppedOther, _, predicted, _⟩ :=
            parsed.handle sound notFinal action
          obtain ⟨-, rfl⟩ := List.append_inj split (popped.trans poppedOther.symm)
          simp [sound.goto_ne_final predicted]

end Certificate

/-- Numbers of the states that every reduction makes smaller. -/
structure Ranks (σ : Type) where
  rank : σ → ℕ
  /-- The rank of a state that a shift enters, at most. -/
  cost : ℕ

namespace Ranks

variable {g : Rules ρ T N} {a : Automaton σ ρ T N} {c : Certificate σ ρ T N} {m : Semantics ρ T τ V D}
  {k : Ranks σ}

structure Descends (k : Ranks σ) (c : Certificate σ ρ T N) (g : Rules ρ T N) (a : Automaton σ ρ T N) :
    Prop where
  reduce : ∀ {state rule below}, c.Item g state rule (g.rhs rule).length → rule ≠ g.goal →
    g.lhs rule ∈ c.predicted below → k.rank (a.goto below (g.lhs rule)) < k.rank state
  shift : ∀ {state kind target}, c.kernel state ≠ [] → a.action state kind = .shift target →
    k.rank target ≤ k.cost

/-- How many steps are left, at most. -/
def potential (k : Ranks σ) (a : Automaton σ ρ T N) (config : Config σ τ V D) : ℕ :=
  k.rank (a.top config.stack) + (k.cost + 1) * config.input.length

theorem Descends.step (descends : k.Descends c g a) (sound : c.Sound g a) {before : D} {tokens : List τ}
    {config next : Config σ τ V D} (parsed : c.Parsed g a m before tokens config)
    (moves : a.Moves g m config next) : k.potential a next < k.potential a config := by
  obtain ⟨symbols, stacked, -⟩ := parsed
  cases moves with
  | shift notFinal action =>
      have added := descends.shift (stacked.kernel_ne_nil sound) action
      simp only [potential, Automaton.top_cons, List.length_cons, Nat.mul_succ]
      omega
  | @reduce front below token rest state rule value acted notFinal action popped same =>
      obtain ⟨item, notGoal, other, otherBelow, rest, split, poppedOther, -, -, predicted⟩ :=
        stacked.handle sound notFinal action
      obtain ⟨-, rfl⟩ := List.append_inj split (popped.trans poppedOther.symm)
      exact Nat.add_lt_add_right (descends.reduce item notGoal predicted) _

variable [DecidableEq σ]

theorem Descends.settles_run (descends : k.Descends c g a) (sound : c.Sound g a) {before : D}
    {tokens : List τ} {fuel : ℕ} {config : Config σ τ V D}
    (parsed : c.Parsed g a m before tokens config) (enough : k.potential a config < fuel) :
    a.Settles g m config (a.run g m fuel config) := by
  induction fuel generalizing config tokens with
  | zero => exact absurd enough (Nat.not_lt_zero _)
  | succ fuel ih =>
      rw [Automaton.run]
      split
      · rename_i next stepped
        have moves := Automaton.moves_of_step stepped
        have fewer := descends.step sound parsed moves
        obtain ⟨read, parsedNext, -⟩ := parsed.step sound moves
        obtain ⟨last, reached, settled⟩ := ih parsedNext (by omega)
        exact ⟨last, .head moves reached, settled⟩
      · rename_i settled
        exact ⟨config, .refl, rfl, settled⟩

/-- A run on an input accepts or rejects it, after a number of steps that is
linear in its length. -/
theorem Descends.decides (descends : k.Descends c g a) (sound : c.Sound g a)
    (succeed : ActionsSucceed g m) {tokens : List τ} (closed : c.Closed m tokens) (before : D) {fuel : ℕ}
    (enough : k.rank a.start + (k.cost + 1) * tokens.length < fuel) :
    ∃ last, a.Settles g m ⟨[], tokens, before⟩ (a.run g m fuel ⟨[], tokens, before⟩) ∧
      (a.run g m fuel ⟨[], tokens, before⟩ = .accepted last ∧ last.input = [] ∨
        a.run g m fuel ⟨[], tokens, before⟩ = .rejected last) := by
  have settles : a.Settles g m ⟨[], tokens, before⟩ (a.run g m fuel ⟨[], tokens, before⟩) :=
    descends.settles_run sound (Certificate.Parsed.initial before tokens) enough
  obtain ⟨last, reached, stepped, settled⟩ := id settles
  have atEnd := sound.final_iff closed reached
  generalize a.run g m fuel ⟨[], tokens, before⟩ = outcome at settles stepped settled ⊢
  cases outcome with
  | running next => exact absurd rfl (settled next)
  | accepted config =>
      obtain ⟨rfl, final⟩ := Automaton.step_eq_accepted stepped
      exact ⟨config, settles, .inl ⟨rfl, atEnd.mpr final⟩⟩
  | rejected config => exact ⟨config, settles, .inr rfl⟩
  | stuck =>
      obtain ⟨read, parsed, -⟩ := (Certificate.Parsed.initial before tokens).reaches sound reached
      by_cases empty : last.input = []
      · rw [Automaton.step, if_pos (atEnd.mp empty)] at stepped
        cases stepped
      · exact absurd stepped (parsed.step_ne_stuck sound succeed empty)

end Ranks

/-! ## The first bad token -/

/-- Every rule stands for some tokens. -/
def Productive (g : Rules ρ T N) (m : Semantics ρ T τ V D) : Prop :=
  ∀ rule ∈ g.all, ∃ tokens, Yields g m (g.rhs rule) tokens

namespace Certificate

variable {g : Rules ρ T N} {a : Automaton σ ρ T N} {c : Certificate σ ρ T N} {m : Semantics ρ T τ V D}

theorem yields_rest (succeed : ActionsSucceed g m) (productive : Productive g m) (before : D) {rule : ρ}
    (member : rule ∈ g.all) (behind : ℕ) : ∃ tokens, Yields g m ((g.rhs rule).drop behind) tokens := by
  obtain ⟨tokens, yields⟩ := productive rule member
  obtain ⟨values, after, derives⟩ := yields before
  rw [← List.take_append_drop behind (g.rhs rule)] at derives
  obtain ⟨_, second, _, _, _, -, -, -, inRest⟩ := derives.split
  exact ⟨second, inRest.yields succeed⟩

/-- The tokens that are read, what is left of the item, and some more tokens
are an input. -/
def Viable (g : Rules ρ T N) (m : Semantics ρ T τ V D) (tokens : List τ) (rule : ρ) (behind : ℕ) : Prop :=
  ∃ later, ∀ more, Yields g m ((g.rhs rule).drop behind) more →
    Yields g m (g.rhs g.goal) (tokens ++ (more ++ later))

/-- An item of the state below comes before each one that is predicted. -/
theorem viable_of_kernel (sound : c.Sound g a) (succeed : ActionsSucceed g m)
    (productive : Productive g m) (before : D) {state : σ} {tokens : List τ}
    (kernel : ∀ rule behind, rule ∈ g.all → (rule, behind) ∈ c.kernel state → Viable g m tokens rule behind)
    {rule : ρ} {behind : ℕ} (item : c.Item g state rule behind) : Viable g m tokens rule behind := by
  obtain ⟨member, inKernel | ⟨rfl, predicted⟩⟩ := item
  · exact kernel rule behind member inKernel
  · obtain ⟨front, back, split⟩ := List.append_of_mem predicted
    -- by the place of the nonterminal in the list: what predicts it stands before it
    induction size : front.length using Nat.strongRecOn generalizing rule front back with
    | _ _ ih =>
        obtain ⟨used, inAll, behind, isNext, source⟩ := sound.predicted_back split
        have viable : Viable g m tokens used behind := by
          rcases source with inKernel | ⟨rfl, earlier⟩
          · exact kernel used behind inAll inKernel
          · obtain ⟨left, right, rfl⟩ := List.append_of_mem earlier
            have shorter : left.length < (left ++ g.lhs used :: right).length := by simp
            rw [List.append_assoc] at split
            refine ih _ (size ▸ shorter) inAll ?_ left (right ++ g.lhs rule :: back) split rfl
            rw [split]
            simp
        obtain ⟨later, extends_⟩ := viable
        obtain ⟨rest, restYields⟩ := yields_rest succeed productive before inAll (behind + 1)
        refine ⟨rest ++ later, fun more yields => ?_⟩
        have notGoal : rule ≠ g.goal := by
          rintro rfl
          exact sound.goal_unpredicted predicted
        have single := (Yields.nonterminal succeed member notGoal yields).append restYields
        have split := List.drop_eq_getElem?_toList_append (l := g.rhs used) (i := behind)
        rw [next] at isNext
        rw [isNext] at split
        have whole := extends_ (more ++ rest) (split ▸ single)
        simpa using whole

/-- Whatever is on the stack can be gone on with, by each of the items. -/
theorem Stacked.viable (sound : c.Sound g a) (succeed : ActionsSucceed g m)
    (productive : Productive g m) {stack : List (σ × V)} {symbols : List (Symbol T N)}
    (stacked : c.Stacked g a stack symbols) {tokens : List τ} {before after : D} {values : List V}
    (derives : Derives g m symbols.reverse tokens before values after) {rule : ρ} {behind : ℕ}
    (item : c.Item g (a.top stack) rule behind) : Viable g m tokens rule behind := by
  induction stacked generalizing tokens values after rule behind with
  | nil =>
      cases derives
      refine viable_of_kernel sound succeed productive before ?_ item
      intro rule behind _ inKernel
      rw [Automaton.top_nil, sound.initial] at inKernel
      cases List.mem_singleton.mp inKernel
      exact ⟨[], fun more yields => by simpa using yields⟩
  | @push stack symbols symbol target value stacked entered ih =>
      refine viable_of_kernel sound succeed productive before ?_ item
      intro rule behind _ inKernel
      obtain ⟨earlier, rfl, isNext, itemBelow⟩ := entered.2 rule behind inKernel
      rw [List.reverse_cons] at derives
      obtain ⟨first, second, between, front, back, rfl, rfl, inStack, inSymbol⟩ := derives.split
      obtain ⟨later, extends_⟩ := ih inStack itemBelow
      refine ⟨later, fun more yields => ?_⟩
      have split := List.drop_eq_getElem?_toList_append (l := g.rhs rule) (i := earlier)
      rw [next] at isNext
      rw [isNext] at split
      have whole := extends_ (second ++ more) (split ▸ (inSymbol.yields succeed).append yields)
      simpa using whole

/-- In any configuration of a run there is a way to go on. -/
theorem Parsed.viable (sound : c.Sound g a) (succeed : ActionsSucceed g m)
    (productive : Productive g m) {before : D} {tokens : List τ} {config : Config σ τ V D}
    (parsed : c.Parsed g a m before tokens config) : ∃ later, Sentence g m before (tokens ++ later) := by
  obtain ⟨symbols, stacked, derives⟩ := parsed
  obtain ⟨⟨rule, behind⟩, inKernel⟩ := List.exists_mem_of_ne_nil _ (stacked.kernel_ne_nil sound)
  have item : c.Item g (a.top config.stack) rule behind := ⟨sound.kernel_mem inKernel, .inl inKernel⟩
  obtain ⟨later, extends_⟩ := stacked.viable sound succeed productive derives item
  obtain ⟨more, yields⟩ := yields_rest succeed productive before item.1 behind
  exact ⟨more ++ later, extends_ more yields before⟩

/-- A token that the state shifts goes on to an input. -/
theorem Parsed.shiftable (sound : c.Sound g a) (succeed : ActionsSucceed g m)
    (productive : Productive g m) {before : D} {tokens : List τ} {config : Config σ τ V D}
    (parsed : c.Parsed g a m before tokens config) {token : τ} {target : σ}
    (action : a.action (a.top config.stack) (m.kind token) = .shift target) :
    ∃ later, Sentence g m before (tokens ++ token :: later) := by
  obtain ⟨symbols, stacked, derives⟩ := parsed
  have entered := sound.shift_back (stacked.kernel_ne_nil sound) action
  have shifted : c.Parsed g a m before (tokens ++ [token])
      ⟨(target, m.leaf token) :: config.stack, [], config.state⟩ :=
    ⟨_, stacked.push _ entered, by simpa using derives.append (.terminal token (.nil config.state))⟩
  simpa using shifted.viable sound succeed productive

variable [DecidableEq σ]

/-- The tokens in front of a rejected one begin an input, together with it they
do not. -/
theorem Sound.first_bad (sound : c.Sound g a) (complete : c.Complete g a) (succeed : ActionsSucceed g m)
    (productive : Productive g m) {before : D} {tokens : List τ} {last : Config σ τ V D}
    (settles : a.Settles g m ⟨[], tokens, before⟩ (.rejected last)) :
    ∃ read token rest, tokens = read ++ token :: rest ∧ last.input = token :: rest ∧
      (∃ later, Sentence g m before (read ++ later)) ∧
      ∀ later, ¬ Sentence g m before (read ++ token :: later) := by
  obtain ⟨config, reached, stepped, -⟩ := settles
  obtain ⟨rfl, notFinal, token, rest, isInput, action⟩ := Automaton.step_eq_rejected stepped
  obtain ⟨read, parsed, same⟩ := (Parsed.initial before tokens).reaches sound reached
  rw [isInput] at same
  refine ⟨read, token, rest, same.symm, isInput, parsed.viable sound succeed productive, ?_⟩
  rintro later ⟨values, after, derives⟩
  obtain ⟨front, split, elsewhere⟩ := reached.local isInput
  obtain rfl : front = read := List.append_cancel_right (split.symm.trans same.symm)
  obtain ⟨stack, -, accepted⟩ := complete.accepts derives
  have rejected : a.Settles g m ⟨[], front ++ token :: later, before⟩
      (.rejected ⟨last.stack, token :: later, last.state⟩) :=
    ⟨_, elsewhere later, Automaton.step_rejects notFinal action, nofun⟩
  cases accepted.unique rejected

end Certificate

end ShiftReduce
