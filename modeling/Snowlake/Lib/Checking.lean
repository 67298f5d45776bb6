import Mathlib.Data.List.Basic

/-! # Checking functions that report

A checking function registers reports in order and ends with a verdict.  While
its body runs the verdict so far is a mutable flag, and the body may return at
any point.  Two options of the caller govern it: `warningsAsErrors` turns a
warning into an error, `bailOnFirstError` makes the body return at an error.

Two facts are worth having about such a function and are derived here once:
what makes its verdict positive (`Decides`), and how its reports under one
policy relate to its reports under the most lenient one (`Follows`).
-/

namespace Checking

inductive Severity where
  | warning
  | error
  deriving Repr, DecidableEq

/-- A report: what is said, and how seriously it is meant. -/
structure Report (δ : Type) where
  severity : Severity
  body : δ
  deriving Repr, DecidableEq

structure Policy where
  bailOnFirstError : Bool
  warningsAsErrors : Bool
  deriving Repr, DecidableEq

namespace Policy

/-- Keep going after an error, and let a warning be a warning. -/
def lenient : Policy := ⟨false, false⟩

end Policy

/-- A value, with the reports registered while it was computed. -/
structure Reported (δ α : Type) where
  log : List (Report δ)
  value : α
  deriving Repr, DecidableEq

namespace Reported

variable {δ α β : Type}

instance : Monad (Reported δ) where
  pure value := ⟨[], value⟩
  bind first next := ⟨first.log ++ (next first.value).log, (next first.value).value⟩

instance : LawfulMonad (Reported δ) where
  map_const := rfl
  id_map _ := by simp [Functor.map]
  seqLeft_eq _ _ := by simp [SeqLeft.seqLeft, Functor.map, Seq.seq]
  seqRight_eq _ _ := by simp [SeqRight.seqRight, Functor.map, Seq.seq]
  pure_seq _ _ := rfl
  bind_pure_comp _ _ := rfl
  bind_map _ _ := rfl
  pure_bind _ _ := by simp [Bind.bind, Pure.pure]
  bind_assoc _ _ _ := by simp [Bind.bind]

@[simp] theorem pure_log (value : α) : (pure value : Reported δ α).log = [] := rfl
@[simp] theorem pure_value (value : α) : (pure value : Reported δ α).value = value := rfl
@[simp] theorem bind_log (first : Reported δ α) (next : α → Reported δ β) :
    (first >>= next).log = first.log ++ (next first.value).log := rfl
@[simp] theorem bind_value (first : Reported δ α) (next : α → Reported δ β) :
    (first >>= next).value = (next first.value).value := rfl

end Reported

/-- How a piece of a body ends: it goes on with a verdict and a value, or the
function returns. -/
inductive Flow (α : Type) where
  | next (verdict : Bool) (value : α)
  | ret (verdict : Bool)
  deriving Repr, DecidableEq

/-- A piece of the body of a checking function with local state `σ`, run from
the verdict so far. -/
def Check (δ σ α : Type) := Bool → σ → Reported δ (σ × Flow α)

namespace Check

variable {δ σ α β : Type}

protected def pure (value : α) : Check δ σ α := fun verdict state =>
  ⟨[], state, .next verdict value⟩

protected def bind (first : Check δ σ α) (next : α → Check δ σ β) : Check δ σ β :=
  fun verdict state =>
    match first verdict state with
    | ⟨log, state, .next verdict value⟩ =>
        let rest := next value verdict state
        ⟨log ++ rest.log, rest.value⟩
    | ⟨log, state, .ret verdict⟩ => ⟨log, state, .ret verdict⟩

instance : Monad (Check δ σ) where
  pure := Check.pure
  bind := Check.bind

instance : MonadStateOf σ (Check δ σ) where
  get := fun verdict state => ⟨[], state, .next verdict state⟩
  set state := fun verdict _ => ⟨[], state, .next verdict ()⟩
  modifyGet f := fun verdict state => ⟨[], (f state).2, .next verdict (f state).1⟩

/-- Report an error: the verdict is negative, and the body returns if the policy says so. -/
def onError (policy : Policy) (body : δ) : Check δ σ Unit := fun _ state =>
  ⟨[⟨.error, body⟩], state, if policy.bailOnFirstError then .ret false else .next false ()⟩

/-- Report a warning, or the error the policy makes of it. -/
def onWarning (policy : Policy) (body : δ) : Check δ σ Unit := fun verdict state =>
  if policy.warningsAsErrors then onError policy body verdict state
  else ⟨[⟨.warning, body⟩], state, .next verdict ()⟩

/-- Call a checking function on the local state; return a negative verdict if its own is negative. -/
def returnOnFailure (callee : σ → Reported δ (Bool × σ)) : Check δ σ Unit :=
  fun verdict state =>
    match callee state with
    | ⟨log, true, state⟩ => ⟨log, state, .next verdict ()⟩
    | ⟨log, false, state⟩ => ⟨log, state, .ret false⟩

/-- `returnOnFailure`, of a function that does not touch the local state. -/
def returnUnless (callee : Reported δ Bool) : Check δ σ Unit :=
  returnOnFailure fun state => ⟨callee.log, callee.value, state⟩

/-- A report made only if `test` holds. -/
def when (test : Bool) (report : Check δ σ Unit) : Check δ σ Unit :=
  if test then report else pure ()

/-- Run a body as a function: the verdict starts positive, and is returned at the end. -/
def call (body : Check δ σ Unit) (state : σ) : Reported δ (Bool × σ) :=
  match body true state with
  | ⟨log, state, .next verdict _⟩ | ⟨log, state, .ret verdict⟩ => ⟨log, verdict, state⟩

/-- `call`, of a function whose state is its own. -/
def callLocal (body : Check δ σ Unit) (state : σ) : Reported δ Bool :=
  ⟨(call body state).log, (call body state).value.1⟩

/-! ## What makes a verdict positive -/

/-- The outcome of a piece of body run from `verdict`: it goes on to `state'`
and `value`, still positive exactly if `condition` holds, or returns negatively. -/
inductive Decided (verdict : Bool) (condition : Prop) (state' : σ) (value : α) :
    Reported δ (σ × Flow α) → Prop where
  | next {log verdict'} (kept : verdict' = true ↔ verdict = true ∧ condition) :
      Decided verdict condition state' value ⟨log, state', .next verdict' value⟩
  | ret {log state} (failed : ¬ condition) :
      Decided verdict condition state' value ⟨log, state, .ret false⟩

/-- From `state` the body keeps its verdict exactly if `condition` holds. -/
def Decides (body : Check δ σ α) (state : σ) (condition : Prop) (state' : σ) (value : α) : Prop :=
  ∀ verdict, Decided verdict condition state' value (body verdict state)

theorem decides_pure (value : α) (state : σ) :
    Decides (pure value : Check δ σ α) state True state value :=
  fun _ => .next (by simp)

theorem decides_bind {first : Check δ σ α} {next : α → Check δ σ β} {state state' state'' : σ}
    {value : α} {result : β} {left right : Prop}
    (hfirst : Decides first state left state' value)
    (hnext : Decides (next value) state' right state'' result) :
    Decides (first >>= next) state (left ∧ right) state'' result := by
  intro verdict
  have start := hfirst verdict
  simp only [Bind.bind, Check.bind]
  generalize first verdict state = outcome at start
  cases start with
  | ret failed => exact .ret fun both => failed both.1
  | @next _ verdict' kept =>
      have rest := hnext verdict'
      generalize ran : next value verdict' state' = outcome' at rest
      cases rest with
      | ret failed => simpa only [ran] using .ret fun both => failed both.2
      | next kept' => simpa only [ran] using .next (by rw [kept', kept, and_assoc])

/-- `decides_bind`, of two statements in sequence. -/
theorem decides_seq {first : Check δ σ PUnit} {next : Check δ σ β} {state state' state'' : σ}
    {result : β} {left right : Prop} (hfirst : Decides first state left state' ())
    (hnext : Decides next state' right state'' result) :
    Decides (first >>= fun _ => next) state (left ∧ right) state'' result :=
  decides_bind hfirst hnext

theorem Decides.of_iff {body : Check δ σ α} {state state' : σ} {value : α} {left right : Prop}
    (h : Decides body state left state' value) (same : left ↔ right) :
    Decides body state right state' value := by
  rwa [propext same] at h

theorem decides_get_bind {next : σ → Check δ σ β} {state state' : σ} {value : β}
    {condition : Prop} (h : Decides (next state) state condition state' value) :
    Decides (get >>= next) state condition state' value := h

theorem decides_modify (f : σ → σ) (state : σ) :
    Decides (modify f : Check δ σ PUnit) state True (f state) () :=
  fun _ => .next (by simp)

theorem decides_onError (policy : Policy) (body : δ) (state : σ) :
    Decides (onError policy body) state False state () := by
  intro verdict
  cases bails : policy.bailOnFirstError with
  | false => simpa only [onError, bails] using .next (by simp)
  | true => simpa only [onError, bails] using .ret id

theorem decides_onWarning (policy : Policy) (body : δ) (state : σ) :
    Decides (onWarning policy body) state (policy.warningsAsErrors = false) state () := by
  intro verdict
  cases strict : policy.warningsAsErrors with
  | false => simpa only [onWarning, strict] using .next (by simp)
  | true => simpa [onWarning, strict] using decides_onError policy body state verdict

theorem decides_returnOnFailure {callee : σ → Reported δ (Bool × σ)} {state state' : σ}
    {condition : Prop}
    (positive : (callee state).value.1 = true ↔ condition)
    (reached : condition → (callee state).value.2 = state') :
    Decides (returnOnFailure callee) state condition state' () := by
  intro verdict
  rcases ran : callee state with ⟨log, answer, state''⟩
  rw [ran] at positive reached
  cases answer with
  | false => simpa only [returnOnFailure, ran] using .ret (by simpa using positive)
  | true =>
      obtain rfl := reached (positive.mp rfl)
      simpa only [returnOnFailure, ran] using .next (by simp [positive.mp rfl])

theorem decides_returnUnless {callee : Reported δ Bool} {condition : Prop}
    (positive : callee.value = true ↔ condition) (state : σ) :
    Decides (returnUnless callee) state condition state () :=
  decides_returnOnFailure positive fun _ => rfl

theorem decides_when {report : Check δ σ Unit} {state : σ} {condition : Prop}
    (h : Decides report state condition state ()) (test : Bool) :
    Decides (when test report) state (test = true → condition) state () := by
  cases test with
  | false => exact (decides_pure () state).of_iff (by simp)
  | true => exact h.of_iff (by simp)

/-- A function answers positively exactly if its body's condition holds. -/
theorem Decides.call {body : Check δ σ Unit} {state state' : σ} {condition : Prop}
    (h : Decides body state condition state' ()) :
    ((call body state).value.1 = true ↔ condition) ∧
      (condition → (call body state).value.2 = state') := by
  have final := h true
  simp only [Check.call]
  generalize body true state = outcome at final
  cases final with
  | next kept => exact ⟨by simpa using kept, fun _ => rfl⟩
  | ret failed => exact ⟨by simpa using failed, fun holds => absurd holds failed⟩

theorem Decides.callLocal {body : Check δ σ Unit} {state state' : σ} {condition : Prop}
    (h : Decides body state condition state' ()) :
    (callLocal body state).value = true ↔ condition :=
  h.call.1

/-- What a loop asks of the elements of a list, each met in the state its predecessors left. -/
def Along (condition : β → σ → Prop) (effect : β → σ → σ) : List β → σ → Prop
  | [], _ => True
  | head :: tail, state => condition head state ∧ Along condition effect tail (effect head state)

/-- The state a loop leaves. -/
def after (effect : β → σ → σ) (items : List β) (state : σ) : σ :=
  items.foldl (fun state item => effect item state) state

instance decidableAlong {condition : β → σ → Prop} {effect : β → σ → σ}
    [∀ item state, Decidable (condition item state)] :
    ∀ items state, Decidable (Along condition effect items state)
  | [], _ => .isTrue trivial
  | head :: tail, state =>
      haveI : Decidable (Along condition effect tail (effect head state)) := decidableAlong tail _
      inferInstanceAs (Decidable (_ ∧ _))

theorem after_append (effect : β → σ → σ) (left right : List β) (state : σ) :
    after effect (left ++ right) state = after effect right (after effect left state) := by
  simp [after, List.foldl_append]

theorem along_append {condition : β → σ → Prop} {effect : β → σ → σ} {left right : List β}
    {state : σ} :
    Along condition effect (left ++ right) state ↔
      Along condition effect left state ∧ Along condition effect right (after effect left state) := by
  induction left generalizing state with
  | nil => simp [Along, after]
  | cons head tail ih => simp only [List.cons_append, Along, ih, and_assoc]; rfl

/-- Each element meets what is asked of it in the state its predecessors leave. -/
theorem along_iff {condition : β → σ → Prop} {effect : β → σ → σ} {items : List β} {state : σ} :
    Along condition effect items state ↔
      ∀ before item rest, items = before ++ item :: rest →
        condition item (after effect before state) := by
  induction items generalizing state with
  | nil => simp [Along]
  | cons head tail ih =>
      simp only [Along, ih]
      constructor
      · rintro ⟨first, others⟩ before item rest same
        cases before with
        | nil =>
            obtain ⟨rfl, rfl⟩ := List.cons.inj same
            exact first
        | cons _ before =>
            obtain ⟨rfl, rfl⟩ := List.cons.inj same
            exact others before item rest rfl
      · intro all
        refine ⟨all [] head tail rfl, fun before item rest same => ?_⟩
        exact all (head :: before) item rest (by rw [same, List.cons_append])

/-- The state may be the elements met so far. -/
theorem along_before_iff {condition : β → List β → Prop} {items : List β} :
    Along condition (fun item before => before ++ [item]) items [] ↔
      ∀ before item rest, items = before ++ item :: rest → condition item before := by
  have collected : ∀ items before : List β,
      after (fun item before => before ++ [item]) items before = before ++ items := by
    intro items
    induction items with
    | nil => simp [after]
    | cons head tail ih => exact fun before => (ih (before ++ [head])).trans (by simp)
  simp only [along_iff, collected, List.nil_append]

theorem decides_forM {body : β → Check δ σ PUnit} {condition : β → σ → Prop}
    {effect : β → σ → σ}
    (each : ∀ item state, Decides (body item) state (condition item state) (effect item state) ())
    (items : List β) (state : σ) :
    Decides (items.forM body) state (Along condition effect items state) (after effect items state) () := by
  induction items generalizing state with
  | nil => exact decides_pure () state
  | cons head tail ih => exact decides_seq (each head state) (ih (effect head state))

end Check

/-! ## The reports under two policies -/

namespace Report

variable {δ : Type}

/-- What a log says, without how seriously it is meant. -/
def bodies (log : List (Report δ)) : List δ := log.map body

@[simp] theorem bodies_append (left right : List (Report δ)) :
    bodies (left ++ right) = bodies left ++ bodies right :=
  List.map_append

/-- No report of the log is an error. -/
def Clean (log : List (Report δ)) : Prop := ∀ report ∈ log, report.severity ≠ .error

/-- The log ends with its only error. -/
def EndsWithError (log : List (Report δ)) : Prop :=
  ∃ before last, log = before ++ [last] ∧ last.severity = .error ∧ Clean before

@[simp] theorem clean_nil : Clean ([] : List (Report δ)) := by
  simp [Clean]

@[simp] theorem clean_append {left right : List (Report δ)} :
    Clean (left ++ right) ↔ Clean left ∧ Clean right := by
  simp only [Clean, List.mem_append]
  exact ⟨fun h => ⟨fun r m => h r (.inl m), fun r m => h r (.inr m)⟩,
    fun h r m => m.elim (h.1 r) (h.2 r)⟩

theorem EndsWithError.append_left {left right : List (Report δ)} (clean : Clean left)
    (ends : EndsWithError right) : EndsWithError (left ++ right) := by
  obtain ⟨before, last, rfl, isError, cleanBefore⟩ := ends
  exact ⟨left ++ before, last, by simp, isError, clean_append.mpr ⟨clean, cleanBefore⟩⟩

/-- A log with no error, or only one at its end, has at most one error, and nothing after it. -/
theorem errors_last {log : List (Report δ)} (h : Clean log ∨ EndsWithError log) :
    (log.filter (·.severity = .error)).length ≤ 1 ∧
      ∀ before report rest, log = before ++ report :: rest → report.severity = .error → rest = [] := by
  rcases h with clean | ⟨init, last, rfl, isError, clean⟩
  · have none : log.filter (·.severity = .error) = [] :=
      List.filter_eq_nil_iff.mpr fun report member => by simpa using clean report member
    refine ⟨by simp [none], fun before report rest split isError => ?_⟩
    exact absurd isError (clean report (by simp [split]))
  · have none : init.filter (·.severity = .error) = [] :=
      List.filter_eq_nil_iff.mpr fun report member => by simpa using clean report member
    refine ⟨by simp [List.filter_append, none, isError], fun before report rest split found => ?_⟩
    rcases List.eq_nil_or_concat rest with rfl | ⟨rest, final, rfl⟩
    · rfl
    · have inside : init ++ [last] = (before ++ report :: rest) ++ [final] := by simpa using split
      obtain ⟨rfl, _⟩ := List.append_inj' inside rfl
      exact absurd found (clean report (by simp))

end Report

open Report

/-- A function's outcome under a policy against its outcome under the lenient
one.  A negative answer comes with an error in the log, and what the log says is
then the beginning of what the lenient run says; a positive one says the same. -/
inductive Coherent {δ α : Type} (policy : Policy) (answer : α → Bool) :
    Reported δ α → Reported δ α → Prop where
  | positive {log lax value} (same : bodies log = bodies lax) (clean : Clean log)
      (yes : answer value = true) : Coherent policy answer ⟨log, value⟩ ⟨lax, value⟩
  | negative {log value lax} (begins : bodies log <+: bodies lax.log) (failed : ¬ Clean log)
      (ends : policy.bailOnFirstError = true → EndsWithError log) (no : answer value = false) :
      Coherent policy answer ⟨log, value⟩ lax

namespace Check

variable {δ σ α β : Type}

/-- `Coherent` for a piece of body: going on, it has said the same as the
lenient run and reached the same state and value. -/
inductive Follows (policy : Policy) (verdict : Bool) :
    Reported δ (σ × Flow α) → Reported δ (σ × Flow α) → Prop where
  | next {log lax state verdict' laxVerdict value} (same : bodies log = bodies lax)
      (kept : verdict' = true ↔ verdict = true ∧ Clean log)
      (weaker : verdict' = true → laxVerdict = true)
      (bailed : policy.bailOnFirstError = true → Clean log) :
      Follows policy verdict ⟨log, state, .next verdict' value⟩ ⟨lax, state, .next laxVerdict value⟩
  | ret {log state lax} (begins : bodies log <+: bodies lax.log) (failed : ¬ Clean log)
      (ends : policy.bailOnFirstError = true → EndsWithError log) :
      Follows policy verdict ⟨log, state, .ret false⟩ lax

/-- `body`, written once for every policy, behaves under each as its lenient run begins. -/
def Uniform (body : Policy → Check δ σ α) : Prop :=
  ∀ policy verdict laxVerdict state, (verdict = true → laxVerdict = true) →
    Follows policy verdict (body policy verdict state) (body .lenient laxVerdict state)

theorem uniform_pure (value : α) : Uniform fun _ => (pure value : Check δ σ α) := by
  intro policy verdict laxVerdict state weaker
  exact .next rfl (by simp) weaker (by simp)

theorem uniform_bind {first : Policy → Check δ σ α} {next : Policy → α → Check δ σ β}
    (hfirst : Uniform first) (hnext : ∀ value, Uniform fun policy => next policy value) :
    Uniform fun policy => first policy >>= next policy := by
  intro policy verdict laxVerdict state weaker
  have start := hfirst policy verdict laxVerdict state weaker
  simp only [Bind.bind, Check.bind]
  generalize first policy verdict state = strict at start
  generalize first .lenient laxVerdict state = lax at start
  cases start with
  | ret begins failed ends =>
      refine .ret ?_ failed ends
      rcases lax with ⟨log, reached, flow⟩
      cases flow with
      | next => exact begins.trans (by simp)
      | ret => exact begins
  | @next log laxLog reached verdict' laxVerdict' value same kept weaker' bailed =>
      have rest := hnext value policy verdict' laxVerdict' reached weaker'
      dsimp only at rest ⊢
      generalize next policy value verdict' reached = strict' at rest ⊢
      generalize next .lenient value laxVerdict' reached = lax' at rest ⊢
      cases rest with
      | next same' kept' weaker'' bailed' =>
          exact .next (by simp [same, same']) (by rw [kept', kept, clean_append, and_assoc]) weaker''
            fun bails => clean_append.mpr ⟨bailed bails, bailed' bails⟩
      | ret begins failed ends =>
          refine .ret ?_ (fun clean => failed (clean_append.mp clean).2)
            fun bails => (ends bails).append_left (bailed bails)
          simpa [same] using begins

theorem uniform_get_bind {next : Policy → σ → Check δ σ β}
    (hnext : ∀ state, Uniform fun policy => next policy state) :
    Uniform fun policy => get >>= next policy :=
  fun policy verdict laxVerdict state weaker => hnext state policy verdict laxVerdict state weaker

theorem uniform_modify (f : σ → σ) : Uniform fun _ => (modify f : Check δ σ PUnit) := by
  intro policy verdict laxVerdict state weaker
  exact .next rfl (by simp) weaker (by simp)

theorem uniform_onError (body : δ) : Uniform fun policy => (onError policy body : Check δ σ Unit) := by
  intro policy verdict laxVerdict state _
  cases bails : policy.bailOnFirstError with
  | false => simpa only [onError, bails] using .next rfl (by simp [Clean]) (by simp) (by simp [bails])
  | true =>
      simpa only [onError, bails] using
        .ret (List.prefix_refl _) (by simp [Clean]) fun _ => ⟨[], _, rfl, rfl, clean_nil⟩

theorem uniform_onWarning (body : δ) :
    Uniform fun policy => (onWarning policy body : Check δ σ Unit) := by
  intro policy verdict laxVerdict state weaker
  cases strict : policy.warningsAsErrors with
  | false => simpa only [onWarning, strict] using .next rfl (by simp [Clean]) weaker (by simp [Clean])
  | true =>
      cases bails : policy.bailOnFirstError with
      | false =>
          simpa only [onWarning, onError, strict, bails] using
            .next rfl (by simp [Clean]) (by simp) (by simp [bails])
      | true =>
          simpa only [onWarning, onError, strict, bails] using
            .ret (List.prefix_refl _) (by simp [Clean]) fun _ => ⟨[], _, rfl, rfl, clean_nil⟩

theorem uniform_returnOnFailure {callee : Policy → σ → Reported δ (Bool × σ)}
    (h : ∀ policy state, Coherent policy Prod.fst (callee policy state) (callee .lenient state)) :
    Uniform fun policy => returnOnFailure (callee policy) := by
  intro policy verdict laxVerdict state weaker
  have called := h policy state
  simp only [returnOnFailure]
  generalize callee policy state = strict at called
  generalize callee .lenient state = lax at called
  cases called with
  | @positive log laxLog value same clean yes =>
      obtain ⟨answer, reached⟩ := value
      obtain rfl : answer = true := yes
      exact .next same (by simp [clean]) weaker fun _ => clean
  | @negative log value lax begins failed ends no =>
      obtain ⟨answer, reached⟩ := value
      obtain rfl : answer = false := no
      refine .ret ?_ failed ends
      rcases lax with ⟨laxLog, answer, laxState⟩
      cases answer <;> exact begins

theorem uniform_returnUnless {callee : Policy → Reported δ Bool}
    (h : ∀ policy, Coherent policy id (callee policy) (callee .lenient)) :
    Uniform fun policy => (returnUnless (callee policy) : Check δ σ Unit) := by
  refine uniform_returnOnFailure fun policy state => ?_
  have called := h policy
  generalize callee policy = strict at called ⊢
  generalize callee .lenient = lax at called ⊢
  cases called with
  | positive same clean yes => exact .positive same clean yes
  | negative begins failed ends no => exact .negative begins failed ends no

theorem uniform_when {report : Policy → Check δ σ Unit} (h : Uniform report) (test : Bool) :
    Uniform fun policy => when test (report policy) := by
  cases test with
  | false => exact uniform_pure ()
  | true => exact h

theorem uniform_forM {body : Policy → β → Check δ σ PUnit}
    (each : ∀ item, Uniform fun policy => body policy item) (items : List β) :
    Uniform fun policy => items.forM (body policy) := by
  induction items with
  | nil => exact uniform_pure ()
  | cons head tail ih => exact uniform_bind (each head) fun _ => ih

/-- A function with a uniform body is coherent. -/
theorem Uniform.call {body : Policy → Check δ σ Unit} (h : Uniform body) (policy : Policy) (state : σ) :
    Coherent policy Prod.fst (call (body policy) state) (call (body .lenient) state) := by
  have final := h policy true true state id
  simp only [Check.call]
  generalize body policy true state = strict at final
  generalize body .lenient true state = lax at final
  cases final with
  | ret begins failed ends =>
      refine .negative ?_ failed ends rfl
      rcases lax with ⟨log, reached, flow⟩
      cases flow <;> exact begins
  | @next log laxLog reached verdict laxVerdict value same kept weaker bailed =>
      cases verdict with
      | true =>
          obtain rfl := weaker rfl
          exact .positive same (kept.mp rfl).2 rfl
      | false =>
          have failed : ¬ Clean log := fun clean => by simpa using kept.mpr ⟨rfl, clean⟩
          exact .negative (by simp [same]) failed (fun bails => absurd (bailed bails) failed) rfl

theorem Uniform.callLocal {body : Policy → Check δ σ Unit} (h : Uniform body) (policy : Policy)
    (state : σ) :
    Coherent policy id (callLocal (body policy) state) (callLocal (body .lenient) state) := by
  have called := h.call policy state
  simp only [Check.callLocal]
  generalize Check.call (body policy) state = strict at called
  generalize Check.call (body .lenient) state = lax at called
  cases called with
  | positive same clean yes => exact .positive same clean yes
  | negative begins failed ends no => exact .negative begins failed ends no

end Check

namespace Coherent

variable {δ α : Type} {policy : Policy}

/-- A second function called only after a positive answer of the first. -/
theorem andThen {first first' second second' : Reported δ Bool}
    (hfirst : Coherent policy id first first') (hsecond : Coherent policy id second second') :
    Coherent policy id (do if ← first then second else pure false)
      (do if ← first' then second' else pure false) := by
  cases hfirst with
  | @negative log value lax begins failed ends no =>
      obtain rfl : value = false := no
      refine .negative ?_ (by simpa using failed) (by simpa using ends) rfl
      simpa using begins.trans (List.prefix_append _ _)
  | @positive log lax value same clean yes =>
      obtain rfl : value = true := yes
      cases hsecond with
      | positive same' clean' yes' =>
          exact .positive (by simp [same, same']) (by simp [clean, clean']) yes'
      | negative begins failed ends no =>
          refine .negative ?_ (by simpa [clean] using failed) (fun bails => ?_) no
          · simpa [same] using begins
          · simpa using (ends bails).append_left clean

theorem value_eq_false_iff {strict lax : Reported δ Bool} (h : Coherent policy id strict lax) :
    strict.value = false ↔ ∃ report ∈ strict.log, report.severity = .error := by
  cases h with
  | @positive log lax value same clean yes =>
      obtain rfl : value = true := yes
      simpa [Clean] using clean
  | @negative log value lax begins failed ends no =>
      obtain rfl : value = false := no
      simpa [Clean] using failed

theorem begins {strict lax : Reported δ Bool} (h : Coherent policy id strict lax) :
    bodies strict.log <+: bodies lax.log := by
  cases h with
  | positive same clean yes => simp [same]
  | negative begins failed ends no => exact begins

theorem endsWithError {strict lax : Reported δ Bool} (h : Coherent policy id strict lax)
    (bails : policy.bailOnFirstError = true) : Clean strict.log ∨ EndsWithError strict.log := by
  cases h with
  | positive same clean yes => exact .inl clean
  | negative begins failed ends no => exact .inr (ends bails)

end Coherent

end Checking
