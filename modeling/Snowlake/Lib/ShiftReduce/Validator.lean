import Snowlake.Lib.ShiftReduce.Runs

/-! # The validator

A certificate of a shift-reduce automaton with finitely many states is checked
by evaluation, rule by rule and state by state.
-/

namespace ShiftReduce

variable {σ ρ T N τ V D : Type} [DecidableEq σ] [DecidableEq ρ] [DecidableEq T] [DecidableEq N]

namespace Certificate

variable (c : Certificate σ ρ T N) (g : Rules ρ T N) (a : Automaton σ ρ T N) (k : Ranks σ)

/-- The items of a state. -/
def items (state : σ) : List (ρ × ℕ) :=
  c.kernel state ++ (g.all.filter fun rule => g.lhs rule ∈ c.predicted state).map (·, 0)

def checkFollow (rule : ρ) : List (Symbol T N) → Bool
  | [] => true
  | .terminal _ :: symbols => checkFollow rule symbols
  | .nonterminal name :: symbols =>
      (c.firsts (c.follow (g.lhs rule)) symbols).all (fun ahead => decide (ahead ∈ c.follow name)) &&
        checkFollow rule symbols

def checkRule (rule : ρ) : Bool :=
  (!c.allNullable (g.rhs rule) || c.nullable (g.lhs rule)) &&
    (c.firsts [] (g.rhs rule)).all (fun ahead => ahead.all fun kind => decide (kind ∈ c.first (g.lhs rule))) &&
    c.checkFollow g rule (g.rhs rule)

/-- The item is carried out by the tables. -/
def checkItem (state : σ) (item : ρ × ℕ) : Bool :=
  match next g item.1 item.2 with
  | some (.terminal kind) =>
      decide (state ≠ a.final) &&
        match a.action state kind with
        | .shift target => decide ((item.1, item.2 + 1) ∈ c.kernel target)
        | _ => false
  | some (.nonterminal name) =>
      decide (name ∈ c.predicted state) && decide ((item.1, item.2 + 1) ∈ c.kernel (a.goto state name))
  | none =>
      if item.1 = g.goal then decide (state = a.final)
      else
        decide (state ≠ a.final) && (c.follow (g.lhs item.1)).all fun ahead =>
          ahead.any fun kind => decide (a.action state kind = .reduce item.1)

def checkEntered (state : σ) (symbol : Symbol T N) (target : σ) : Bool :=
  !(c.kernel target).isEmpty && (c.kernel target).all fun item =>
    match item.2 with
    | 0 => false
    | before + 1 =>
        decide (next g item.1 before = some symbol) && decide ((item.1, before) ∈ c.items g state)

/-- What the tables do is to carry out an item. -/
def checkAction (state : σ) (kind : T) : Bool :=
  match a.action state kind with
  | .shift target =>
      c.checkEntered g state (.terminal kind) target &&
        decide (target = a.final ↔ kind = c.last) && decide (k.rank target ≤ k.cost)
  | .reduce rule =>
      decide (state = a.final) ||
        decide ((rule, (g.rhs rule).length) ∈ c.items g state) && decide (rule ≠ g.goal)
  | .error => true

def checkPredicted (state : σ) : List N → List N → Bool
  | _, [] => true
  | front, name :: back =>
      ((c.kernel state ++ (g.all.filter fun rule => g.lhs rule ∈ front).map (·, 0)).any fun item : ρ × ℕ =>
        decide (next g item.1 item.2 = some (Symbol.nonterminal name))) &&
        decide (name ≠ g.lhs g.goal) &&
        c.checkEntered g state (.nonterminal name) (a.goto state name) &&
        decide (a.goto state name ≠ a.final) && checkPredicted state (front ++ [name]) back

/-- The reductions at the end of a rule lower the rank, whatever is below. -/
def checkRank (states : List σ) (state : σ) : Bool :=
  (c.items g state).all fun item =>
    decide (item.2 ≠ (g.rhs item.1).length) || decide (item.1 = g.goal) || states.all fun below =>
      decide (g.lhs item.1 ∉ c.predicted below) ||
        decide (k.rank (a.goto below (g.lhs item.1)) < k.rank state)

def checkState (states : List σ) (kinds : List T) (state : σ) : Bool :=
  (c.kernel state).all (fun item => decide (item.1 ∈ g.all)) &&
    (c.items g state).all (c.checkItem g a state) && kinds.all (c.checkAction g a k state) &&
    c.checkPredicted g a state [] (c.predicted state) && c.checkRank g a k states state

def check (states : List σ) (kinds : List T) : Bool :=
  decide (g.goal ∈ g.all) && decide (c.kernel a.start = [(g.goal, 0)]) &&
    decide (a.start ≠ a.final) && decide ((g.goal, (g.rhs g.goal).length) ∈ c.items g a.final) &&
    decide (none ∈ c.follow (g.lhs g.goal)) && g.all.all (c.checkRule g) &&
    states.all (c.checkState g a k states kinds)

/-- A checked certificate, with the states that have items and all terminals. -/
structure Checked (states : List σ) (kinds : List T) : Prop where
  passed : c.check g a k states kinds = true
  states_cover : ∀ state, c.kernel state ≠ [] ∨ c.predicted state ≠ [] → state ∈ states
  kinds_cover : ∀ kind, kind ∈ kinds

variable {c g a k} {states : List σ} {kinds : List T}

omit [DecidableEq σ] [DecidableEq ρ] [DecidableEq T] in
theorem mem_items {state : σ} {rule : ρ} {behind : ℕ} :
    (rule, behind) ∈ c.items g state ↔ (rule, behind) ∈ c.kernel state ∨
      behind = 0 ∧ rule ∈ g.all ∧ g.lhs rule ∈ c.predicted state := by
  simp only [items, List.mem_append, List.mem_map, List.mem_filter, decide_eq_true_eq, Prod.mk.injEq]
  constructor
  · rintro (inKernel | ⟨_, predicted, rfl, rfl⟩)
    · exact .inl inKernel
    · exact .inr ⟨rfl, predicted⟩
  · rintro (inKernel | ⟨rfl, predicted⟩)
    · exact .inl inKernel
    · exact .inr ⟨rule, predicted, rfl, rfl⟩

omit [DecidableEq σ] [DecidableEq ρ] [DecidableEq T] in
theorem Item.mem_items {state : σ} {rule : ρ} {behind : ℕ} (item : c.Item g state rule behind) :
    (rule, behind) ∈ c.items g state :=
  Certificate.mem_items.mpr (item.2.imp id fun predicted => ⟨predicted.1, item.1, predicted.2⟩)

omit [DecidableEq σ] [DecidableEq ρ] [DecidableEq N] in
theorem follow_of_checkFollow {rule : ρ} {front : List (Symbol T N)} {name : N}
    {back : List (Symbol T N)}
    (passed : c.checkFollow g rule (front ++ .nonterminal name :: back) = true) :
    c.firsts (c.follow (g.lhs rule)) back ⊆ c.follow name := by
  induction front with
  | nil =>
      simp only [List.nil_append, checkFollow, Bool.and_eq_true, List.all_eq_true,
        decide_eq_true_eq] at passed
      exact fun ahead member => passed.1 ahead member
  | cons symbol front ih =>
      cases symbol with
      | terminal kind => exact ih passed
      | nonterminal other =>
          rw [List.cons_append, checkFollow, Bool.and_eq_true] at passed
          exact ih passed.2

namespace Checked

theorem rule (checked : c.Checked g a k states kinds) {rule : ρ} (member : rule ∈ g.all) :
    c.checkRule g rule = true := by
  have passed := checked.passed
  simp only [check, Bool.and_eq_true, List.all_eq_true] at passed
  exact passed.1.2 rule member

theorem state (checked : c.Checked g a k states kinds) {state : σ}
    (alive : c.kernel state ≠ [] ∨ c.predicted state ≠ []) :
    c.checkState g a k states kinds state = true := by
  have passed := checked.passed
  simp only [check, Bool.and_eq_true, List.all_eq_true] at passed
  exact passed.2 state (checked.states_cover state alive)

omit [DecidableEq σ] [DecidableEq ρ] [DecidableEq T] [DecidableEq N] in
theorem alive_of_item {state : σ} {rule : ρ} {behind : ℕ} (item : c.Item g state rule behind) :
    c.kernel state ≠ [] ∨ c.predicted state ≠ [] :=
  item.2.imp List.ne_nil_of_mem fun predicted => List.ne_nil_of_mem predicted.2

theorem kernel_mem (checked : c.Checked g a k states kinds) {state : σ} {rule : ρ} {behind : ℕ}
    (inKernel : (rule, behind) ∈ c.kernel state) : rule ∈ g.all := by
  have passed := checked.state (.inl (List.ne_nil_of_mem inKernel))
  simp only [checkState, Bool.and_eq_true, List.all_eq_true, decide_eq_true_eq] at passed
  exact passed.1.1.1.1 _ inKernel

theorem item_of_mem (checked : c.Checked g a k states kinds) {state : σ} {rule : ρ} {behind : ℕ}
    (member : (rule, behind) ∈ c.items g state) : c.Item g state rule behind := by
  rcases Certificate.mem_items.mp member with inKernel | ⟨rfl, inAll, predicted⟩
  · exact ⟨checked.kernel_mem inKernel, .inl inKernel⟩
  · exact ⟨inAll, .inr ⟨rfl, predicted⟩⟩

theorem item (checked : c.Checked g a k states kinds) {state : σ} {rule : ρ} {behind : ℕ}
    (item : c.Item g state rule behind) : c.checkItem g a state (rule, behind) = true := by
  have passed := checked.state (alive_of_item item)
  simp only [checkState, Bool.and_eq_true, List.all_eq_true] at passed
  exact passed.1.1.1.2 _ item.mem_items

theorem action (checked : c.Checked g a k states kinds) {state : σ} (alive : c.kernel state ≠ [])
    (kind : T) : c.checkAction g a k state kind = true := by
  have passed := checked.state (.inl alive)
  simp only [checkState, Bool.and_eq_true, List.all_eq_true] at passed
  exact passed.1.1.2 kind (checked.kinds_cover kind)

theorem entered (checked : c.Checked g a k states kinds) {state target : σ} {symbol : Symbol T N}
    (passed : c.checkEntered g state symbol target = true) : c.Entered g state symbol target := by
  simp only [checkEntered, Bool.and_eq_true, Bool.not_eq_true', List.isEmpty_eq_false_iff,
    List.all_eq_true] at passed
  refine ⟨passed.1, fun rule behind inKernel => ?_⟩
  have item := passed.2 _ inKernel
  cases behind with
  | zero => cases item
  | succ before =>
      simp only [Bool.and_eq_true, decide_eq_true_eq] at item
      exact ⟨before, rfl, item.1, checked.item_of_mem item.2⟩

/-- What is checked of a predicted nonterminal, by its place in the list. -/
theorem predicted (checked : c.Checked g a k states kinds) {state : σ} {front : List N} {name : N}
    {back : List N} (split : c.predicted state = front ++ name :: back) :
    (∃ rule ∈ g.all, ∃ behind, next g rule behind = some (.nonterminal name) ∧
      ((rule, behind) ∈ c.kernel state ∨ behind = 0 ∧ g.lhs rule ∈ front)) ∧
      name ≠ g.lhs g.goal ∧ c.Entered g state (.nonterminal name) (a.goto state name) ∧
      a.goto state name ≠ a.final := by
  have alive : c.predicted state ≠ [] := by simp [split]
  have passed := checked.state (.inr alive)
  simp only [checkState, Bool.and_eq_true] at passed
  have inList : c.checkPredicted g a state [] (front ++ name :: back) = true := split ▸ passed.1.2
  have atName : ∀ earlier, c.checkPredicted g a state earlier (front ++ name :: back) = true →
      c.checkPredicted g a state (earlier ++ front) (name :: back) = true := by
    clear split inList
    induction front with
    | nil => exact fun earlier found => by simpa using found
    | cons other front ih =>
        intro earlier found
        rw [List.cons_append, checkPredicted, Bool.and_eq_true] at found
        simpa using ih (earlier ++ [other]) found.2
  have found := atName [] inList
  simp only [List.nil_append, checkPredicted, Bool.and_eq_true, decide_eq_true_eq, List.any_eq_true]
    at found
  obtain ⟨⟨⟨⟨⟨⟨rule, behind⟩, member, isNext⟩, notGoal⟩, enters⟩, notFinal⟩, -⟩ := found
  refine ⟨?_, notGoal, checked.entered enters, notFinal⟩
  rcases List.mem_append.mp member with inKernel | earlier
  · exact ⟨rule, checked.kernel_mem inKernel, behind, isNext, .inl inKernel⟩
  · simp only [List.mem_map, List.mem_filter, decide_eq_true_eq, Prod.mk.injEq] at earlier
    obtain ⟨_, ⟨inAll, inFront⟩, rfl, rfl⟩ := earlier
    exact ⟨_, inAll, 0, isNext, .inr ⟨rfl, inFront⟩⟩

theorem complete (checked : c.Checked g a k states kinds) : c.Complete g a := by
  have passed := checked.passed
  simp only [check, Bool.and_eq_true, decide_eq_true_eq] at passed
  obtain ⟨⟨⟨⟨⟨⟨goalMem, initial⟩, -⟩, -⟩, goalLast⟩, -⟩, -⟩ := passed
  refine
    { goal_mem := goalMem
      initial := by rw [initial]; exact List.mem_singleton_self _
      closed := ?_, shift := ?_, goto := ?_, reduce := ?_, accept := ?_, nullable := ?_, first := ?_,
      follow := ?_
      goal_last := goalLast }
  · intro state rule behind name item isNext
    have passed := checked.item item
    simp only [checkItem, isNext, Bool.and_eq_true, decide_eq_true_eq] at passed
    exact passed.1
  · intro state rule behind kind item isNext
    have passed := checked.item item
    simp only [checkItem, isNext, Bool.and_eq_true, decide_eq_true_eq] at passed
    refine ⟨passed.1, ?_⟩
    cases action : a.action state kind with
    | shift target =>
        rw [action] at passed
        exact ⟨target, rfl, of_decide_eq_true passed.2⟩
    | reduce | error =>
        rw [action] at passed
        cases passed.2
  · intro state rule behind name item isNext
    have passed := checked.item item
    simp only [checkItem, isNext, Bool.and_eq_true, decide_eq_true_eq] at passed
    exact passed.2
  · intro state rule item notGoal
    have passed := checked.item item
    have atEnd : next g rule (g.rhs rule).length = none := List.getElem?_eq_none (Nat.le_refl _)
    simp only [checkItem, atEnd, notGoal, if_false, Bool.and_eq_true, decide_eq_true_eq,
      List.all_eq_true, Option.any_eq_true] at passed
    exact passed
  · intro state item
    have passed := checked.item item
    have atEnd : next g g.goal (g.rhs g.goal).length = none := List.getElem?_eq_none (Nat.le_refl _)
    simp only [checkItem, atEnd, if_true, decide_eq_true_eq] at passed
    exact passed
  · intro rule member allNullable
    have passed := checked.rule member
    simp only [checkRule, allNullable, Bool.and_eq_true, Bool.not_true, Bool.false_or] at passed
    exact passed.1.1
  · intro rule kind member inFirsts
    have passed := checked.rule member
    simp only [checkRule, Bool.and_eq_true, List.all_eq_true] at passed
    simpa using passed.1.2 _ inFirsts
  · intro rule front name back member split
    have passed := checked.rule member
    simp only [checkRule, Bool.and_eq_true] at passed
    exact follow_of_checkFollow (split ▸ passed.2)

theorem sound (checked : c.Checked g a k states kinds) : c.Sound g a := by
  have passed := checked.passed
  simp only [check, Bool.and_eq_true, decide_eq_true_eq] at passed
  obtain ⟨⟨⟨⟨⟨⟨-, initial⟩, startNotFinal⟩, atEnd⟩, -⟩, -⟩, -⟩ := passed
  refine
    { kernel_mem := checked.kernel_mem
      initial := initial
      goal_unpredicted := ?_
      shift_back := ?_, goto_back := ?_, reduce_back := ?_, predicted_back := ?_
      accept_back := checked.item_of_mem atEnd
      start_ne_final := startNotFinal
      goto_ne_final := ?_, shift_final_iff := ?_ }
  · intro state predicted
    obtain ⟨front, back, split⟩ := List.append_of_mem predicted
    exact (checked.predicted split).2.1 rfl
  · intro state kind target alive action
    have passed := checked.action alive kind
    simp only [checkAction, action, Bool.and_eq_true] at passed
    exact checked.entered passed.1.1
  · intro state name predicted
    obtain ⟨front, back, split⟩ := List.append_of_mem predicted
    exact (checked.predicted split).2.2.1
  · intro state kind rule alive notFinal action
    have passed := checked.action alive kind
    simp only [checkAction, action, notFinal, decide_false, Bool.false_or, Bool.and_eq_true,
      decide_eq_true_eq] at passed
    exact ⟨checked.item_of_mem passed.1, passed.2⟩
  · exact fun split => (checked.predicted split).1
  · intro state name predicted
    obtain ⟨front, back, split⟩ := List.append_of_mem predicted
    exact (checked.predicted split).2.2.2
  · intro state kind target alive action
    have passed := checked.action alive kind
    simp only [checkAction, action, Bool.and_eq_true, decide_eq_true_eq] at passed
    exact passed.1.2

theorem descends (checked : c.Checked g a k states kinds) : k.Descends c g a where
  reduce := by
    intro state rule below item notGoal predicted
    have passed := checked.state (alive_of_item item)
    simp only [checkState, Bool.and_eq_true] at passed
    have inBelow := List.all_eq_true.mp passed.2 _ item.mem_items
    simp only [ne_eq, not_true_eq_false, decide_false, notGoal, Bool.false_or, List.all_eq_true]
      at inBelow
    have lower := inBelow below (checked.states_cover below (.inr (List.ne_nil_of_mem predicted)))
    simpa [predicted] using lower
  shift := by
    intro state kind target alive action
    have passed := checked.action alive kind
    simp only [checkAction, action, Bool.and_eq_true, decide_eq_true_eq] at passed
    exact passed.2

end Checked

end Certificate

/-! ## Words -/

/-- Tokens for symbols, by one rule for each nonterminal and one token for each
terminal. -/
def word (g : Rules ρ T N) (choice : N → ρ) (sample : T → τ) : ℕ → List (Symbol T N) → Option (List τ)
  | _, [] => some []
  | 0, _ :: _ => none
  | fuel + 1, .terminal kind :: symbols =>
      (word g choice sample fuel symbols).map (sample kind :: ·)
  | fuel + 1, .nonterminal name :: symbols => do
      if choice name ∈ g.all ∧ choice name ≠ g.goal ∧ g.lhs (choice name) = name then
        let body ← word g choice sample fuel (g.rhs (choice name))
        let rest ← word g choice sample fuel symbols
        return body ++ rest
      else none

omit [DecidableEq σ] [DecidableEq T] in
theorem yields_word {g : Rules ρ T N} {m : Semantics ρ T τ V D} (succeed : ActionsSucceed g m)
    {choice : N → ρ} {sample : T → τ} (samples : ∀ kind, m.kind (sample kind) = kind) {fuel : ℕ}
    {symbols : List (Symbol T N)} {tokens : List τ} (made : word g choice sample fuel symbols = some tokens) :
    Yields g m symbols tokens := by
  induction fuel generalizing symbols tokens with
  | zero =>
      cases symbols with
      | nil =>
          cases made
          exact .nil
      | cons => cases made
  | succ fuel ih =>
      cases symbols with
      | nil =>
          cases made
          exact .nil
      | cons symbol symbols =>
          cases symbol with
          | terminal kind =>
              obtain ⟨rest, madeRest, rfl⟩ := Option.map_eq_some_iff.mp made
              have first := Yields.terminal (g := g) (m := m) (sample kind)
              rw [samples] at first
              exact first.append (ih madeRest)
          | nonterminal name =>
              rw [word] at made
              split at made
              · rename_i chosen
                obtain ⟨body, madeBody, made⟩ := Option.bind_eq_some_iff.mp made
                obtain ⟨rest, madeRest, made⟩ := Option.bind_eq_some_iff.mp made
                cases made
                have first := Yields.nonterminal succeed chosen.1 chosen.2.1 (ih madeBody)
                rw [chosen.2.2] at first
                exact first.append (ih madeRest)
              · cases made

end ShiftReduce
