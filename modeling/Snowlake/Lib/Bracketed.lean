import Mathlib.Data.List.Basic
import Mathlib.Tactic.Linarith

/-! # Well-bracketed sequences

Events that open and close scopes with labels.  In a well-bracketed sequence
scopes nest, and each is closed under the label it was opened with.
-/

namespace Bracketed

/-- What an event does to the scopes labelled by `ι`. -/
inductive Role (ι : Type) where
  | opens (label : ι)
  | closes (label : ι)
  | neutral
  deriving DecidableEq

variable {ε ι : Type} (role : ε → Role ι)

inductive WellBracketed : List ε → Prop
  | nil : WellBracketed []
  | neutral {event rest} : role event = .neutral → WellBracketed rest → WellBracketed (event :: rest)
  | scope {opening label inside closing rest} : role opening = .opens label → WellBracketed inside →
      role closing = .closes label → WellBracketed rest →
      WellBracketed (opening :: (inside ++ closing :: rest))

/-- How many scopes a sequence leaves open, less those it closes but did not open. -/
def depth : List ε → Int
  | [] => 0
  | event :: rest =>
      (match role event with
        | .opens _ => 1
        | .closes _ => -1
        | .neutral => 0) + depth rest

variable {role}

@[simp] theorem depth_append (first second : List ε) :
    depth role (first ++ second) = depth role first + depth role second := by
  induction first with
  | nil => simp [depth]
  | cons event rest ih => simp only [List.cons_append, depth, ih, Int.add_assoc]

namespace WellBracketed

theorem append {first second : List ε} (left : WellBracketed role first)
    (right : WellBracketed role second) : WellBracketed role (first ++ second) := by
  induction left with
  | nil => exact right
  | neutral isNeutral _ ih => exact .neutral isNeutral ih
  | scope opened inside closed _ _ ih => simpa using WellBracketed.scope opened inside closed ih

theorem of_neutral {events : List ε} (neutral : ∀ event ∈ events, role event = .neutral) :
    WellBracketed role events := by
  induction events with
  | nil => exact .nil
  | cons event rest ih =>
      exact .neutral (neutral event (by simp)) (ih fun other member => neutral other (by simp [member]))

theorem depth_eq_zero {events : List ε} (bracketed : WellBracketed role events) :
    depth role events = 0 := by
  induction bracketed with
  | nil => rfl
  | neutral isNeutral _ ih => simp only [depth, isNeutral, ih, Int.add_zero]
  | scope opened _ closed _ ihInside ihRest =>
      simp only [depth, opened, closed, depth_append, ihInside, ihRest]
      omega

/-- A pair of brackets around a well-bracketed sequence. -/
theorem enclose {opening closing : ε} {label : ι} {inside : List ε} (opened : role opening = .opens label)
    (bracketed : WellBracketed role inside) (closed : role closing = .closes label) :
    WellBracketed role (opening :: (inside ++ [closing])) :=
  .scope opened bracketed closed .nil

end WellBracketed

/-- The same, but for the labels that are not kept. -/
def Role.restrict (keep : ι → Bool) : Role ι → Role ι
  | .opens label => if keep label then .opens label else .neutral
  | .closes label => if keep label then .closes label else .neutral
  | .neutral => .neutral

/-- The scopes under some of the labels nest among themselves. -/
theorem WellBracketed.restrict {events : List ε} (bracketed : WellBracketed role events)
    (keep : ι → Bool) : WellBracketed (fun event => (role event).restrict keep) events := by
  induction bracketed with
  | nil => exact .nil
  | neutral isNeutral _ ih => exact .neutral (by rw [isNeutral, Role.restrict]) ih
  | @scope opening label inside closing rest opened _ closed _ ihInside ihRest =>
      cases kept : keep label with
      | true =>
          exact .scope (by rw [opened, Role.restrict, kept, if_pos rfl]) ihInside
            (by rw [closed, Role.restrict, kept, if_pos rfl]) ihRest
      | false =>
          refine .neutral (by rw [opened, Role.restrict, kept]; rfl) (ihInside.append ?_)
          exact .neutral (by rw [closed, Role.restrict, kept]; rfl) ihRest

section Checks

variable [DecidableEq ι] (role)

/-- Reads a sequence with the labels of the open scopes, the innermost first. -/
def checks : List ι → List ε → Bool
  | stack, [] => stack.isEmpty
  | stack, event :: rest =>
      match role event with
      | .opens label => checks (label :: stack) rest
      | .closes label =>
          match stack with
          | [] => false
          | open' :: stack => open' = label && checks stack rest
      | .neutral => checks stack rest

variable {role}

/-- What is read under an open scope closes it. -/
theorem exists_of_checks (size : Nat) {events : List ε} (small : events.length < size) {label : ι}
    {stack : List ι} (checked : checks role (label :: stack) events = true) :
    ∃ inside closing rest, events = inside ++ closing :: rest ∧ WellBracketed role inside ∧
      role closing = .closes label ∧ checks role stack rest = true := by
  induction size generalizing events label stack with
  | zero => exact absurd small (Nat.not_lt_zero _)
  | succ size ih =>
      cases events with
      | nil => cases checked
      | cons event rest =>
          simp only [List.length_cons] at small
          rw [checks] at checked
          split at checked
          case h_1 label' opened =>
            obtain ⟨inside, closing, rest', rfl, bracketed, closed, later⟩ := ih (by omega) checked
            simp only [List.length_append, List.length_cons] at small
            obtain ⟨inside', closing', rest, rfl, bracketed', closed', last⟩ := ih (by omega) later
            exact ⟨event :: (inside ++ closing :: inside'), closing', rest, by simp,
              .scope opened bracketed closed bracketed', closed', last⟩
          case h_2 label' closed =>
            simp only [Bool.and_eq_true, decide_eq_true_eq] at checked
            obtain ⟨rfl, last⟩ := checked
            exact ⟨[], event, rest, rfl, .nil, closed, last⟩
          case h_3 isNeutral =>
            obtain ⟨inside, closing, rest', rfl, bracketed, closed, last⟩ := ih (by omega) checked
            exact ⟨event :: inside, closing, rest', rfl, .neutral isNeutral bracketed, closed, last⟩

theorem wellBracketed_of_checks {events : List ε} (checked : checks role [] events = true) :
    WellBracketed role events := by
  generalize size : events.length = n
  induction n using Nat.strong_induction_on generalizing events with
  | _ n ih =>
      cases events with
      | nil => exact .nil
      | cons event rest =>
          simp only [List.length_cons] at size
          rw [checks] at checked
          split at checked
          case h_1 label opened =>
            obtain ⟨inside, closing, rest', rfl, bracketed, closed, last⟩ :=
              exists_of_checks _ (Nat.lt_succ_self _) checked
            simp only [List.length_append, List.length_cons] at size
            exact .scope opened bracketed closed (ih _ (by omega) last rfl)
          case h_2 => cases checked
          case h_3 isNeutral => exact .neutral isNeutral (ih _ (by omega) checked rfl)

end Checks

end Bracketed
