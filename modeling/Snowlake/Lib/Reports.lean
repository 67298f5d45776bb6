import Snowlake.Lib.Checking

/-! # What checking functions report

A property that every report of a piece of body has, whatever it is run from, is
one of all that is put together from such pieces.
-/

namespace Checking

variable {δ σ α β : Type} {p : Report δ → Prop}

namespace Check

/-- All that the body reports has the property. -/
def Reports (p : Report δ → Prop) (body : Check δ σ α) : Prop :=
  ∀ verdict state, ∀ report ∈ (body verdict state).log, p report

theorem reports_pure (value : α) : Reports p (pure value : Check δ σ α) := by
  intro verdict state report member
  cases member

theorem reports_get : Reports p (get : Check δ σ σ) := by
  intro verdict state report member
  cases member

theorem reports_modify (f : σ → σ) : Reports p (modify f : Check δ σ PUnit) := by
  intro verdict state report member
  cases member

theorem reports_bind {first : Check δ σ α} {next : α → Check δ σ β} (here : Reports p first)
    (later : ∀ value, Reports p (next value)) : Reports p (first >>= next) := by
  intro verdict state report member
  have reported := here verdict state report
  change report ∈ (Check.bind first next verdict state).log at member
  rw [Check.bind] at member
  generalize first verdict state = result at member reported
  obtain ⟨log, state', flow⟩ := result
  cases flow with
  | ret verdict' => exact reported member
  | next verdict' value =>
      rcases List.mem_append.mp member with inFirst | inRest
      · exact reported inFirst
      · exact later value verdict' state' report inRest

theorem reports_onError (policy : Policy) {body : δ} (holds : p ⟨.error, body⟩) :
    Reports p (onError policy body : Check δ σ Unit) := by
  intro verdict state report member
  obtain rfl := List.mem_singleton.mp member
  exact holds

theorem reports_onWarning (policy : Policy) {body : δ} (asError : p ⟨.error, body⟩)
    (asWarning : policy.warningsAsErrors = false → p ⟨.warning, body⟩) :
    Reports p (onWarning policy body : Check δ σ Unit) := by
  intro verdict state report member
  rw [onWarning] at member
  split at member
  · exact reports_onError policy asError verdict state report member
  · rename_i lenient
    obtain rfl := List.mem_singleton.mp member
    exact asWarning (Bool.eq_false_iff.mpr lenient)

theorem reports_returnOnFailure {callee : σ → Reported δ (Bool × σ)}
    (called : ∀ state, ∀ report ∈ (callee state).log, p report) : Reports p (returnOnFailure callee) := by
  intro verdict state report member
  have reported := called state report
  rw [returnOnFailure] at member
  generalize callee state = result at member reported
  obtain ⟨log, answer, state'⟩ := result
  cases answer <;> exact reported member

theorem reports_returnUnless {callee : Reported δ Bool} (called : ∀ report ∈ callee.log, p report) :
    Reports p (returnUnless callee : Check δ σ Unit) :=
  reports_returnOnFailure fun _ => called

theorem reports_when (test : Bool) {report : Check δ σ Unit} (reported : Reports p report) :
    Reports p (when test report) := by
  cases test with
  | false => exact reports_pure ()
  | true => exact reported

theorem reports_forM {body : β → Check δ σ PUnit} (each : ∀ item, Reports p (body item)) (items : List β) :
    Reports p (items.forM body) := by
  induction items with
  | nil => exact reports_pure _
  | cons head tail ih => exact reports_bind (each head) fun _ => ih

theorem Reports.call {body : Check δ σ Unit} (reports : Reports p body) (state : σ) :
    ∀ report ∈ (Check.call body state).log, p report := by
  intro report member
  have reported := reports true state report
  rw [Check.call] at member
  generalize body true state = result at member reported
  obtain ⟨log, state', flow⟩ := result
  cases flow <;> exact reported member

theorem Reports.callLocal {body : Check δ σ Unit} (reports : Reports p body) (state : σ) :
    ∀ report ∈ (Check.callLocal body state).log, p report := reports.call state

end Check

end Checking
