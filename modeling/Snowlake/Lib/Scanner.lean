import Snowlake.Lib.MaximalMunch

/-! # Scanners

Automata that read the classes of items and find the longest match of a list of
rules, with the state as the only memory.  A finite automaton is checked by the
rules that its states are in the middle of.
-/

namespace MaximalMunch

variable {α β κ σ : Type}

/-! ## The first rule that matches -/

/-- The result of the first rule that matches the whole text. -/
def firstMatch (rules : List (Pattern α × β)) (text : List α) : Option β :=
  (rules.find? fun rule => rule.1.accepts text).map Prod.snd

/-- What is left of the rules behind an item. -/
def derivatives (item : α) (rules : List (Pattern α × β)) : List (Pattern α × β) :=
  rules.map fun rule => (rule.1.derivative item, rule.2)

theorem firstMatch_derivatives (item : α) (rules : List (Pattern α × β)) (text : List α) :
    firstMatch (derivatives item rules) text = firstMatch rules (item :: text) := by
  rw [firstMatch, firstMatch, derivatives, List.find?_map, Option.map_map]
  rfl

theorem firstMatch_cons_nil (rule : Pattern α × β) (later : List (Pattern α × β)) :
    firstMatch (rule :: later) [] = if rule.1.nullable then some rule.2 else firstMatch later [] := by
  have accepts : rule.1.accepts [] = rule.1.nullable := rfl
  rw [firstMatch, List.find?_cons, accepts]
  cases rule.1.nullable <;> rfl

theorem munch_nil (rules : List (Pattern α × β)) :
    munch rules [] = (firstMatch rules []).map (0, ·) := by
  induction rules with
  | nil => rfl
  | cons rule later ih =>
      rw [munch, ih, longest, firstMatch_cons_nil]
      cases rule.1.nullable with
      | true => cases firstMatch later [] <;> rfl
      | false => rfl

/-- One item is consumed by all rules at once. -/
theorem munch_derivatives (item : α) (rest : List α) (rules : List (Pattern α × β)) :
    munch rules (item :: rest) =
      match munch (derivatives item rules) rest with
      | some (length, result) => some (length + 1, result)
      | none => (firstMatch rules []).map (0, ·) := by
  induction rules with
  | nil => rfl
  | cons rule later ih =>
      have split : derivatives item (rule :: later) =
          (rule.1.derivative item, rule.2) :: derivatives item later := rfl
      rw [munch, ih, split, munch, longest, firstMatch_cons_nil]
      cases longest (rule.1.derivative item) rest with
      | none =>
          cases munch (derivatives item later) rest with
          | none =>
              cases rule.1.nullable with
              | false => rfl
              | true => cases firstMatch later [] <;> rfl
          | some best => cases rule.1.nullable <;> simp
      | some length =>
          cases munch (derivatives item later) rest with
          | none => cases firstMatch later [] <;> simp
          | some best =>
              simp only [Nat.add_lt_add_iff_right]
              split <;> rfl

theorem munch_eq_none {rules : List (Pattern α × β)} (never : ∀ text, firstMatch rules text = none)
    (input : List α) : munch rules input = none := by
  rw [Option.eq_none_iff_forall_ne_some]
  intro best found
  obtain ⟨pattern, member, matched⟩ := mem_of_munch found
  have accepted := (accepts_iff ..).mpr (matches_of_longest matched).2
  have rejected := never (input.take best.1)
  rw [firstMatch, Option.map_eq_none_iff, List.find?_eq_none] at rejected
  exact rejected _ member accepted

/-! ## Scanners -/

/-- A partial automaton: `next` is `none` where it jams. -/
structure Scanner (σ κ β : Type) where
  start : σ
  next : σ → κ → Option σ
  accept : σ → Option β

namespace Scanner

variable (d : Scanner σ κ β)

def run (state : σ) (input : List κ) : Option σ := input.foldlM d.next state

/-- How much was read when the automaton last accepted, before it jams. -/
def longest : σ → List κ → Option (ℕ × β)
  | state, [] => (d.accept state).map (0, ·)
  | state, item :: rest =>
      match (d.next state item).bind fun next => longest next rest with
      | some (length, result) => some (length + 1, result)
      | none => (d.accept state).map (0, ·)

variable {d}

theorem run_cons (state : σ) (item : κ) (rest : List κ) :
    d.run state (item :: rest) = (d.next state item).bind fun next => d.run next rest := rfl

/-- The last accepting prefix is the longest match, if the automaton accepts what
the rules match. -/
theorem longest_eq_munch {of : α → κ} {state : σ} {rules : List (Pattern α × β)}
    (same : ∀ text, firstMatch rules text = (d.run state (text.map of)).bind d.accept) (input : List α) :
    d.longest state (input.map of) = munch rules input := by
  induction input generalizing state rules with
  | nil =>
      rw [munch_nil, same []]
      rfl
  | cons item rest ih =>
      have here : d.accept state = firstMatch rules [] := (same []).symm
      rw [munch_derivatives, List.map_cons, longest, here]
      cases moved : d.next state (of item) with
      | none =>
          have never : ∀ text, firstMatch (derivatives item rules) text = none := by
            intro text
            rw [firstMatch_derivatives, same, List.map_cons, run_cons, moved]
            rfl
          rw [munch_eq_none never]
          rfl
      | some next =>
          have later : d.longest next (rest.map of) = munch (derivatives item rules) rest := by
            refine ih fun text => ?_
            rw [firstMatch_derivatives, same, List.map_cons, run_cons, moved]
            rfl
          rw [← later]
          rfl

end Scanner

/-! ## Rules that a state is in the middle of -/

/-- A deterministic automaton for one pattern, in its state 0 at first. -/
structure Recogniser (κ : Type) where
  next : ℕ → κ → Option ℕ
  accepts : ℕ → Bool

namespace Recogniser

def run (r : Recogniser κ) (state : ℕ) (input : List κ) : Option ℕ := input.foldlM r.next state

theorem run_cons (r : Recogniser κ) (state : ℕ) (item : κ) (rest : List κ) :
    r.run state (item :: rest) = (r.next state item).bind fun next => r.run next rest := rfl

/-- The automaton accepts what the pattern matches. -/
def Recognises (r : Recogniser κ) (of : α → κ) (pattern : Pattern α) : Prop :=
  ∀ text, pattern.accepts text = (r.run 0 (text.map of)).any r.accepts

/-- The items one by one, each with those of the same class. -/
def literal [DecidableEq κ] (items : List κ) : Recogniser κ where
  next state item := if items[state]? = some item then some (state + 1) else none
  accepts state := decide (state = items.length)

theorem literal_run [DecidableEq κ] {items input : List κ} {state : ℕ} (within : state ≤ items.length) :
    ((literal items).run state input).any (literal items).accepts = decide (input = items.drop state) := by
  induction input generalizing state with
  | nil =>
      have atEnd : ([] = items.drop state) ↔ state = items.length := by
        rw [eq_comm, List.drop_eq_nil_iff]
        omega
      simp only [atEnd]
      rfl
  | cons item rest ih =>
      rw [run_cons]
      by_cases isNext : items[state]? = some item
      · obtain ⟨inside, isItem⟩ := List.getElem?_eq_some_iff.mp isNext
        have moved : (literal items).next state item = some (state + 1) := if_pos isNext
        rw [moved, Option.bind_some, ih inside, List.drop_eq_getElem_cons inside, isItem]
        simp
      · have jammed : (literal items).next state item = none := if_neg isNext
        have different : item :: rest ≠ items.drop state := by
          intro same
          rw [← List.head?_drop, ← same] at isNext
          exact isNext rfl
        rw [jammed, decide_eq_false different]
        rfl

theorem literal_recognises [DecidableEq α] [DecidableEq κ] {of : α → κ} {items : List α}
    (separates : ∀ item ∈ items, ∀ other, of other = of item → other = item) :
    (literal (items.map of)).Recognises of (Pattern.literal items) := by
  intro text
  rw [accepts_literal, literal_run (Nat.zero_le _), List.drop_zero]
  refine decide_eq_decide.mpr ⟨congrArg _, fun same => ?_⟩
  induction items generalizing text with
  | nil => exact List.map_eq_nil_iff.mp same
  | cons item items ih =>
      cases text with
      | nil => cases same
      | cons other text =>
          obtain ⟨sameHead, sameTail⟩ := List.cons.inj same
          rw [separates item List.mem_cons_self other sameHead,
            ih (fun item member => separates item (List.mem_cons_of_mem _ member)) text sameTail]

/-- An item of some classes, and then items of others. -/
def sequence (starts continues : κ → Bool) : Recogniser κ where
  next
    | 0, item => if starts item then some 1 else none
    | state + 1, item => if continues item then some (state + 1) else none
  accepts state := state != 0

theorem sequence_run_succ {starts continues : κ → Bool} (state : ℕ) (input : List κ) :
    ((sequence starts continues).run (state + 1) input).any (sequence starts continues).accepts =
      input.all continues := by
  induction input with
  | nil => rfl
  | cons item rest ih =>
      rw [run_cons, List.all_cons]
      cases continued : continues item with
      | true =>
          have moved : (sequence starts continues).next (state + 1) item = some (state + 1) := if_pos continued
          rw [moved, Option.bind_some, ih, Bool.true_and]
      | false =>
          have jammed : (sequence starts continues).next (state + 1) item = none :=
            if_neg (by rw [continued]; nofun)
          rw [jammed]
          rfl

theorem sequence_run {starts continues : κ → Bool} (item : κ) (rest : List κ) :
    ((sequence starts continues).run 0 (item :: rest)).any (sequence starts continues).accepts =
      (starts item && rest.all continues) := by
  rw [run_cons]
  cases started : starts item with
  | true =>
      have moved : (sequence starts continues).next 0 item = some 1 := if_pos started
      rw [moved, Option.bind_some, sequence_run_succ, Bool.true_and]
  | false =>
      have jammed : (sequence starts continues).next 0 item = none := if_neg (by rw [started]; nofun)
      rw [jammed]
      rfl

theorem sequence_recognises {of : α → κ} {start follows : α → Bool} {starts continues : κ → Bool}
    (sameStart : ∀ item, start item = starts (of item))
    (sameContinue : ∀ item, follows item = continues (of item)) :
    (sequence starts continues).Recognises of (.seq (.one start) (.star (.one follows))) := by
  intro text
  cases text with
  | nil => rfl
  | cons item rest =>
      rw [List.map_cons, sequence_run, ← sameStart, List.all_map, Bool.eq_iff_iff, accepts_iff,
        matches_run_cons_iff]
      simp [sameContinue]

theorem one_recognises {of : α → κ} {start : α → Bool} {starts : κ → Bool}
    (sameStart : ∀ item, start item = starts (of item)) :
    (sequence starts fun _ => false).Recognises of (.one start) := by
  intro text
  cases text with
  | nil => rfl
  | cons item rest =>
      rw [List.map_cons, sequence_run, ← sameStart, Bool.eq_iff_iff, accepts_iff, matches_one_iff]
      cases rest <;> simp

end Recogniser

section Items

variable (recogniser : β → Recogniser κ)

def stepItems (entries : List (β × ℕ)) (item : κ) : List (β × ℕ) :=
  entries.filterMap fun entry => ((recogniser entry.1).next entry.2 item).map (entry.1, ·)

/-- The first rule that is matched as a whole. -/
def resultOf (entries : List (β × ℕ)) : Option β :=
  (entries.find? fun entry => (recogniser entry.1).accepts entry.2).map Prod.fst

variable {recogniser}

theorem foldl_stepItems (input : List κ) (entries : List (β × ℕ)) :
    input.foldl (stepItems recogniser) entries =
      entries.filterMap fun entry => ((recogniser entry.1).run entry.2 input).map (entry.1, ·) := by
  induction input generalizing entries with
  | nil => exact List.filterMap_some.symm
  | cons item rest ih =>
      rw [List.foldl_cons, ih, stepItems, List.filterMap_filterMap]
      refine List.filterMap_congr fun entry _ => ?_
      rw [Recogniser.run_cons]
      cases (recogniser entry.1).next entry.2 item <;> rfl

theorem resultOf_foldl {of : α → κ} {rules : List (Pattern α × β)}
    (recognises : ∀ rule ∈ rules, (recogniser rule.2).Recognises of rule.1) (text : List α) :
    resultOf recogniser ((text.map of).foldl (stepItems recogniser) (rules.map fun rule => (rule.2, 0))) =
      firstMatch rules text := by
  rw [foldl_stepItems]
  induction rules with
  | nil => rfl
  | cons rule later ih =>
      have rest := ih fun rule member => recognises rule (List.mem_cons_of_mem _ member)
      have accepts := recognises rule List.mem_cons_self text
      rw [firstMatch, List.find?_cons, accepts, List.map_cons, List.filterMap_cons]
      cases (recogniser rule.2).run 0 (text.map of) with
      | none => exact rest
      | some state =>
          simp only [Option.map_some, Option.any_some, resultOf, List.find?_cons]
          cases (recogniser rule.2).accepts state with
          | true => rfl
          | false => exact rest

end Items

namespace Scanner

/-- The items of each state are those that the text up to it is in the middle of. -/
structure Checked (d : Scanner σ κ β) (recogniser : β → Recogniser κ) (numbers : List β)
    (items : σ → List (β × ℕ)) (states : List σ) (kinds : List κ) : Prop where
  start_mem : d.start ∈ states
  start : items d.start = numbers.map (·, 0)
  accept : ∀ state ∈ states, d.accept state = resultOf recogniser (items state)
  inside : ∀ state ∈ states, ∀ kind ∈ kinds, ∀ next ∈ d.next state kind, next ∈ states
  steps : ∀ state ∈ states, ∀ kind ∈ kinds,
    stepItems recogniser (items state) kind = ((d.next state kind).map items).getD []

variable {d : Scanner σ κ β} {recogniser : β → Recogniser κ} {items : σ → List (β × ℕ)}
  {states : List σ} {kinds : List κ} {numbers : List β}

/-- What is to be checked of a state, each step of the automaton once. -/
def check [DecidableEq β] (d : Scanner σ κ β) (recogniser : β → Recogniser κ) (items : σ → List (β × ℕ))
    (inside : σ → Bool) (kinds : List κ) (state : σ) : Bool :=
  decide (d.accept state = resultOf recogniser (items state)) &&
    kinds.all fun kind =>
      let later := stepItems recogniser (items state) kind
      match d.next state kind with
      | none => later.isEmpty
      | some next => inside next && decide (later = items next)

theorem Checked.of_check [DecidableEq β] {inside : σ → Bool}
    (same : ∀ state, inside state = true → state ∈ states) (start_mem : d.start ∈ states)
    (start : items d.start = numbers.map (·, 0))
    (checks : states.all (d.check recogniser items inside kinds) = true) :
    d.Checked recogniser numbers items states kinds := by
  rw [List.all_eq_true] at checks
  have steps : ∀ state ∈ states, ∀ kind ∈ kinds,
      (∀ next ∈ d.next state kind, next ∈ states) ∧
        stepItems recogniser (items state) kind = ((d.next state kind).map items).getD [] := by
    intro state inStates kind inKinds
    have checked := checks state inStates
    rw [check, Bool.and_eq_true, List.all_eq_true] at checked
    have step := checked.2 kind inKinds
    cases moved : d.next state kind with
    | none =>
        rw [moved] at step
        exact ⟨nofun, List.isEmpty_iff.mp step⟩
    | some next =>
        rw [moved, Bool.and_eq_true, decide_eq_true_eq] at step
        refine ⟨?_, step.2⟩
        rintro _ ⟨⟩
        exact same next step.1
  refine ⟨start_mem, start, fun state inStates => ?_, fun state inStates kind inKinds => ?_,
    fun state inStates kind inKinds => ?_⟩
  · have checked := checks state inStates
    rw [check, Bool.and_eq_true, decide_eq_true_eq] at checked
    exact checked.1
  · exact (steps state inStates kind inKinds).1
  · exact (steps state inStates kind inKinds).2

theorem foldl_stepItems_nil (input : List κ) : input.foldl (stepItems recogniser) [] = [] := by
  rw [foldl_stepItems, List.filterMap_nil]

theorem Checked.resultOf_foldl (checked : d.Checked recogniser numbers items states kinds) {state : σ}
    (member : state ∈ states) {input : List κ} (inKinds : ∀ kind ∈ input, kind ∈ kinds) :
    resultOf recogniser (input.foldl (stepItems recogniser) (items state)) =
      (d.run state input).bind d.accept := by
  induction input generalizing state with
  | nil => exact (checked.accept state member).symm
  | cons kind rest ih =>
      have isKind := inKinds kind List.mem_cons_self
      rw [List.foldl_cons, run_cons, checked.steps state member kind isKind]
      cases moved : d.next state kind with
      | none =>
          rw [Option.map_none, Option.getD_none, foldl_stepItems_nil]
          rfl
      | some next =>
          exact ih (checked.inside state member kind isKind next moved) fun kind member =>
            inKinds kind (List.mem_cons_of_mem _ member)

/-- The automaton finds the longest match of the rules. -/
theorem Checked.longest_eq_munch {of : α → κ} {rules : List (Pattern α × β)}
    (checked : d.Checked recogniser (rules.map Prod.snd) items states kinds)
    (recognises : ∀ rule ∈ rules, (recogniser rule.2).Recognises of rule.1)
    (inKinds : ∀ item, of item ∈ kinds) (input : List α) :
    d.longest d.start (input.map of) = munch rules input := by
  refine Scanner.longest_eq_munch (fun text => ?_) input
  have all : ∀ kind ∈ text.map of, kind ∈ kinds := by
    intro kind member
    obtain ⟨item, -, rfl⟩ := List.mem_map.mp member
    exact inKinds item
  rw [← MaximalMunch.resultOf_foldl recognises, ← checked.resultOf_foldl checked.start_mem all,
    checked.start, List.map_map]
  rfl

end Scanner

end MaximalMunch
