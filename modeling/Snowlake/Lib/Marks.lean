import Snowlake.Lib.Checking

/-! # Reports that say what made them

A log lists what was reported, not which part of a body reported it.  A marked
function is the function itself with a mark on its reports; without the marks
its outcome is the function's own.  `Speaks` and `Registers` follow a body under
a policy that keeps going, and say when there is a report and with which marks.
-/

namespace Checking

variable {δ δ' κ σ α β : Type}

/-- What a report says, with the mark of the part that made it. -/
structure Marked (δ κ : Type) where
  body : δ
  mark : Option κ
  deriving Repr, DecidableEq

namespace Reported

/-- The same outcome, with something else in place of what is said. -/
def mapBody (f : δ → δ') (reported : Reported δ α) : Reported δ' α :=
  ⟨reported.log.map fun report => ⟨report.severity, f report.body⟩, reported.value⟩

@[simp] theorem mapBody_value (f : δ → δ') (reported : Reported δ α) :
    (reported.mapBody f).value = reported.value := rfl

theorem mapBody_pure (f : δ → δ') (value : α) :
    (pure value : Reported δ α).mapBody f = pure value := rfl

theorem mapBody_bind (f : δ → δ') (first : Reported δ α) (next : α → Reported δ β) :
    (first >>= next).mapBody f = first.mapBody f >>= fun value => (next value).mapBody f := by
  simp [mapBody, Bind.bind]

theorem mapBody_mapBody {δ'' : Type} (f : δ → δ') (g : δ' → δ'') (reported : Reported δ α) :
    (reported.mapBody f).mapBody g = reported.mapBody fun body => g (f body) := by
  simp [mapBody]

theorem mapBody_id (reported : Reported δ α) : (reported.mapBody fun body => body) = reported := by
  simp [mapBody]

end Reported

/-- Some report of the log carries the mark. -/
def Marks (log : List (Report (Marked δ κ))) (mark : κ) : Prop :=
  ∃ report ∈ log, report.body.mark = some mark

instance [DecidableEq κ] (log : List (Report (Marked δ κ))) (mark : κ) : Decidable (Marks log mark) :=
  inferInstanceAs (Decidable (∃ report ∈ log, _))

@[simp] theorem marks_nil (mark : κ) : ¬ Marks ([] : List (Report (Marked δ κ))) mark := by
  simp [Marks]

@[simp] theorem marks_append {left right : List (Report (Marked δ κ))} {mark : κ} :
    Marks (left ++ right) mark ↔ Marks left mark ∨ Marks right mark := by
  simp only [Marks, List.mem_append, or_and_right, exists_or]

theorem marks_mapBody_mark {reported : Reported δ α} {mark : Option κ} {other : κ} :
    Marks (reported.mapBody fun said => (⟨said, mark⟩ : Marked δ κ)).log other ↔
      mark = some other ∧ reported.log ≠ [] := by
  simp only [Marks, Reported.mapBody, List.mem_map]
  constructor
  · rintro ⟨_, ⟨report, member, rfl⟩, same⟩
    exact ⟨same, List.ne_nil_of_mem member⟩
  · rintro ⟨same, nonempty⟩
    obtain ⟨report, member⟩ := List.exists_mem_of_ne_nil _ nonempty
    exact ⟨_, ⟨report, member, rfl⟩, same⟩

/-- Marks may be replaced by others. -/
theorem marks_mapBody_map {κ' : Type} {reported : Reported (Marked δ κ) α} {f : κ → κ'} {other : κ'} :
    Marks (reported.mapBody fun said => (⟨said.body, said.mark.map f⟩ : Marked δ κ')).log other ↔
      ∃ mark, Marks reported.log mark ∧ f mark = other := by
  simp only [Marks, Reported.mapBody, List.mem_map]
  constructor
  · rintro ⟨_, ⟨report, member, rfl⟩, same⟩
    obtain ⟨mark, found, rfl⟩ := Option.map_eq_some_iff.mp same
    exact ⟨mark, ⟨report, member, found⟩, rfl⟩
  · rintro ⟨mark, ⟨report, member, found⟩, rfl⟩
    exact ⟨_, ⟨report, member, rfl⟩, Option.map_eq_some_iff.mpr ⟨mark, found, rfl⟩⟩

namespace Check

/-- `Reported.mapBody` of a piece of body. -/
def mapBody (f : δ → δ') (body : Check δ σ α) : Check δ' σ α :=
  fun verdict state => (body verdict state).mapBody f

/-- `body`, with `mark` on each of its reports. -/
def marked (mark : Option κ) (body : Check δ σ α) : Check (Marked δ κ) σ α :=
  mapBody (fun said => ⟨said, mark⟩) body

/-- `body`, without the marks of its reports. -/
def unmarked (body : Check (Marked δ κ) σ α) : Check δ σ α := mapBody Marked.body body

theorem mapBody_pure (f : δ → δ') (value : α) :
    mapBody f (pure value : Check δ σ α) = pure value := rfl

theorem mapBody_bind (f : δ → δ') (first : Check δ σ α) (next : α → Check δ σ β) :
    mapBody f (first >>= next) = mapBody f first >>= fun value => mapBody f (next value) := by
  funext verdict state
  simp only [mapBody, Bind.bind, Check.bind]
  rcases first verdict state with ⟨log, state', flow⟩
  cases flow with
  | next verdict' value => simp [Reported.mapBody]
  | ret verdict' => rfl

theorem mapBody_returnOnFailure (f : δ → δ') (callee : σ → Reported δ (Bool × σ)) :
    mapBody f (returnOnFailure callee) = returnOnFailure fun state => (callee state).mapBody f := by
  funext verdict state
  simp only [mapBody, returnOnFailure]
  rcases callee state with ⟨log, answer, state'⟩
  cases answer with
  | true => rfl
  | false => rfl

theorem bind_pure_unit (body : Check δ σ Unit) : (body >>= fun _ => pure ()) = body := by
  funext verdict state
  simp only [Bind.bind, Check.bind]
  rcases body verdict state with ⟨log, state', flow⟩
  cases flow with
  | next verdict' value => simp [pure, Check.pure]
  | ret verdict' => rfl

theorem call_mapBody (f : δ → δ') (body : Check δ σ Unit) (state : σ) :
    call (mapBody f body) state = (call body state).mapBody f := by
  simp only [call, mapBody]
  rcases body true state with ⟨log, state', flow⟩
  cases flow with
  | next verdict value => rfl
  | ret verdict => rfl

theorem callLocal_mapBody (f : δ → δ') (body : Check δ σ Unit) (state : σ) :
    callLocal (mapBody f body) state = (callLocal body state).mapBody f := by
  simp only [callLocal, call_mapBody]
  rfl

@[simp] theorem unmarked_marked (mark : Option κ) (body : Check δ σ α) :
    unmarked (marked mark body) = body := by
  funext verdict state
  exact (Reported.mapBody_mapBody _ _ _).trans (Reported.mapBody_id _)

/-! ## Bodies that always go on -/

/-- From `state` the body goes on to `state'` and `value`, and reports
something exactly if `condition` fails. -/
def Speaks (body : Check δ σ α) (state : σ) (condition : Prop) (state' : σ) (value : α) : Prop :=
  ∀ verdict, ∃ log verdict', body verdict state = ⟨log, state', .next verdict' value⟩ ∧
    (log = [] ↔ condition)

theorem speaks_pure (value : α) (state : σ) :
    Speaks (pure value : Check δ σ α) state True state value :=
  fun verdict => ⟨[], verdict, rfl, by simp⟩

theorem speaks_bind {first : Check δ σ α} {next : α → Check δ σ β} {state state' state'' : σ}
    {value : α} {result : β} {left right : Prop} (hfirst : Speaks first state left state' value)
    (hnext : Speaks (next value) state' right state'' result) :
    Speaks (first >>= next) state (left ∧ right) state'' result := by
  intro verdict
  obtain ⟨log, verdict', ran, silent⟩ := hfirst verdict
  obtain ⟨log', verdict'', ran', silent'⟩ := hnext verdict'
  refine ⟨log ++ log', verdict'', ?_, ?_⟩
  · simp only [Bind.bind, Check.bind, ran, ran']
  · rw [List.append_eq_nil_iff, silent, silent']

theorem speaks_get_bind {next : σ → Check δ σ β} {state state' : σ} {value : β} {condition : Prop}
    (h : Speaks (next state) state condition state' value) :
    Speaks (get >>= next) state condition state' value := h

theorem speaks_modify (f : σ → σ) (state : σ) :
    Speaks (modify f : Check δ σ PUnit) state True (f state) () :=
  fun verdict => ⟨[], verdict, rfl, by simp⟩

theorem Speaks.of_iff {body : Check δ σ α} {state state' : σ} {value : α} {left right : Prop}
    (h : Speaks body state left state' value) (same : left ↔ right) :
    Speaks body state right state' value := by
  rwa [propext same] at h

section KeepsGoing

variable {policy : Policy} (keepsGoing : policy.bailOnFirstError = false)
include keepsGoing

theorem speaks_onError (said : δ) (state : σ) : Speaks (onError policy said) state False state () := by
  intro verdict
  exact ⟨_, false, by simp only [onError, keepsGoing]; rfl, by simp⟩

theorem speaks_onWarning (said : δ) (state : σ) :
    Speaks (onWarning policy said) state False state () := by
  intro verdict
  cases strict : policy.warningsAsErrors with
  | false => exact ⟨_, verdict, by simp only [onWarning, strict]; rfl, by simp⟩
  | true =>
      obtain ⟨log, verdict', ran, silent⟩ := speaks_onError keepsGoing said state verdict
      exact ⟨log, verdict', by rw [onWarning, if_pos strict, ran], silent⟩

end KeepsGoing

theorem speaks_when {report : Check δ σ Unit} {state : σ} (h : Speaks report state False state ())
    (test : Bool) : Speaks (when test report) state (test = false) state () := by
  cases test with
  | false => exact (speaks_pure () state).of_iff (by simp)
  | true => exact h.of_iff (by simp)

/-- A function whose body always goes on reports something exactly if the body does. -/
theorem Speaks.call {body : Check δ σ Unit} {state state' : σ} {condition : Prop}
    (h : Speaks body state condition state' ()) : (call body state).log = [] ↔ condition := by
  obtain ⟨log, verdict, ran, silent⟩ := h true
  rw [Check.call, ran]
  exact silent

/-! ## The marks of a body -/

/-- The outcome of a piece of body: its reports carry `marks`, and it goes on to
`state'` and `value` exactly if `onward` holds. -/
inductive Registered (marks : κ → Prop) (onward : Prop) (state' : σ) (value : α) :
    Reported (Marked δ κ) (σ × Flow α) → Prop where
  | next {log verdict} (holds : onward) (exact : ∀ mark, Marks log mark ↔ marks mark) :
      Registered marks onward state' value ⟨log, state', .next verdict value⟩
  | ret {log state verdict} (fails : ¬ onward) (exact : ∀ mark, Marks log mark ↔ marks mark) :
      Registered marks onward state' value ⟨log, state, .ret verdict⟩

/-- From `state` the body registers `marks`, and goes on exactly if `onward` holds. -/
def Registers (body : Check (Marked δ κ) σ α) (state : σ) (marks : κ → Prop) (onward : Prop)
    (state' : σ) (value : α) : Prop :=
  ∀ verdict, Registered marks onward state' value (body verdict state)

theorem registers_pure (value : α) (state : σ) :
    Registers (pure value : Check (Marked δ κ) σ α) state (fun _ => False) True state value :=
  fun _ => .next trivial fun mark => iff_false_intro (marks_nil mark)

theorem registers_marked {body : Check δ σ α} {state state' : σ} {condition : Prop} {value : α}
    (h : Speaks body state condition state' value) (mark : Option κ) :
    Registers (marked mark body) state (fun other => mark = some other ∧ ¬ condition) True state' value := by
  intro verdict
  obtain ⟨log, verdict', ran, silent⟩ := h verdict
  have marks := fun other : κ => @marks_mapBody_mark _ _ _ (body verdict state) mark other
  simp only [marked, mapBody]
  rw [ran] at marks ⊢
  exact .next trivial fun other => (marks other).trans (and_congr_right' (not_congr silent))

theorem registers_bind {first : Check (Marked δ κ) σ α} {next : α → Check (Marked δ κ) σ β}
    {state state' state'' : σ} {value : α} {result : β} {left right : κ → Prop} {onward onward' : Prop}
    (hfirst : Registers first state left onward state' value)
    (hnext : onward → Registers (next value) state' right onward' state'' result) :
    Registers (first >>= next) state (fun mark => left mark ∨ onward ∧ right mark) (onward ∧ onward')
      state'' result := by
  intro verdict
  have start := hfirst verdict
  simp only [Bind.bind, Check.bind]
  generalize first verdict state = outcome at start
  cases start with
  | ret fails exact =>
      exact .ret (fun both => fails both.1) fun mark => by
        rw [exact mark, or_iff_left fun both => fails both.1]
  | @next log verdict' holds exact =>
      have rest := hnext holds verdict'
      generalize ran : next value verdict' state' = outcome' at rest
      have both : ∀ {log'}, (∀ mark, Marks log' mark ↔ right mark) →
          ∀ mark, Marks (log ++ log') mark ↔ left mark ∨ onward ∧ right mark := by
        intro log' exact' mark
        rw [marks_append, exact mark, exact' mark, and_iff_right holds]
      cases rest with
      | ret fails exact' => simpa only [ran] using .ret (fun both => fails both.2) (both exact')
      | next holds' exact' => simpa only [ran] using .next ⟨holds, holds'⟩ (both exact')

/-- `registers_bind`, of two statements in sequence. -/
theorem registers_seq {first : Check (Marked δ κ) σ PUnit} {next : Check (Marked δ κ) σ β}
    {state state' state'' : σ} {result : β} {left right : κ → Prop} {onward onward' : Prop}
    (hfirst : Registers first state left onward state' ())
    (hnext : onward → Registers next state' right onward' state'' result) :
    Registers (first >>= fun _ => next) state (fun mark => left mark ∨ onward ∧ right mark)
      (onward ∧ onward') state'' result :=
  registers_bind hfirst hnext

theorem registers_get_bind {next : σ → Check (Marked δ κ) σ β} {state state' : σ} {value : β}
    {marks : κ → Prop} {onward : Prop} (h : Registers (next state) state marks onward state' value) :
    Registers (get >>= next) state marks onward state' value := h

theorem registers_returnOnFailure (callee : σ → Reported (Marked δ κ) (Bool × σ)) (state : σ) :
    Registers (returnOnFailure callee) state (Marks (callee state).log) ((callee state).value.1 = true)
      (callee state).value.2 () := by
  intro verdict
  rcases ran : callee state with ⟨log, answer, state'⟩
  cases answer with
  | false => simpa only [returnOnFailure, ran] using .ret (by simp) fun mark => Iff.rfl
  | true =>
      rw [returnOnFailure, ran]
      exact .next rfl fun mark => Iff.rfl

theorem Registers.of_iff {body : Check (Marked δ κ) σ α} {state state' : σ} {value : α}
    {left right : κ → Prop} {onward onward' : Prop} (h : Registers body state left onward state' value)
    (same : ∀ mark, left mark ↔ right mark) (same' : onward ↔ onward') :
    Registers body state right onward' state' value := by
  rwa [funext fun mark => propext (same mark), propext same'] at h

/-- A function registers the marks of its body. -/
theorem Registers.call {body : Check (Marked δ κ) σ Unit} {state state' : σ} {marks : κ → Prop}
    {onward : Prop} (h : Registers body state marks onward state' ()) (mark : κ) :
    Marks (call body state).log mark ↔ marks mark := by
  have final := h true
  simp only [Check.call]
  generalize body true state = outcome at final
  cases final with
  | next holds exact => exact exact mark
  | ret fails exact => exact exact mark

end Check

end Checking
