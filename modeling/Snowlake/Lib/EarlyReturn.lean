import Mathlib.Data.List.Basic

/-! # Structured code with early returns

Code that steps, tests, loops and returns, over events of any type, and the
control-flow paths through it.  A path fixes the outcome of every test and the
number of rounds of every loop; nothing constrains either.
-/

namespace EarlyReturn

inductive Code (ε : Type) where
  | step (event : ε)
  /-- A test whose negative outcome runs `body`; the event tells the outcome. -/
  | unless (test : Bool → ε) (body : List (Code ε))
  | loop (body : List (Code ε))
  | ret

/-- How a path ends: behind the last statement, or at a return. -/
inductive Exit where
  | falls
  | returns
  deriving Repr, DecidableEq

variable {ε : Type}

inductive Path : List (Code ε) → List ε → Exit → Prop
  | nil : Path [] [] .falls
  | step {event rest events exit} :
      Path rest events exit → Path (.step event :: rest) (event :: events) exit
  | pass {test body rest events exit} :
      Path rest events exit → Path (.unless test body :: rest) (test true :: events) exit
  | fail {test body rest inside events exit} : Path body inside .falls → Path rest events exit →
      Path (.unless test body :: rest) (test false :: (inside ++ events)) exit
  | failReturns {test body rest inside} : Path body inside .returns →
      Path (.unless test body :: rest) (test false :: inside) .returns
  | leave {body rest events exit} : Path rest events exit → Path (.loop body :: rest) events exit
  | again {body rest inside events exit} : Path body inside .falls →
      Path (.loop body :: rest) events exit → Path (.loop body :: rest) (inside ++ events) exit
  | quit {body rest inside} : Path body inside .returns → Path (.loop body :: rest) inside .returns
  | ret {rest} : Path (.ret :: rest) [] .returns

namespace Path

/-- Falling through the first part leads into the second. -/
theorem append {first second : List (Code ε)} {events events' : List ε} {exit : Exit}
    (here : Path first events .falls) (there : Path second events' exit) :
    Path (first ++ second) (events ++ events') exit := by
  generalize falls : Exit.falls = exit' at here
  induction here with
  | nil => exact there
  | step _ ih => exact .step (ih falls)
  | pass _ ih => exact .pass (ih falls)
  | fail inside _ _ ih => simpa using Path.fail inside (ih falls)
  | leave _ ih => exact .leave (ih falls)
  | again inside _ _ ih => simpa using Path.again inside (ih falls)
  | failReturns | quit | ret => cases falls

/-- A return in the first part skips the second. -/
theorem append_returns {first : List (Code ε)} {events : List ε}
    (here : Path first events .returns) (second : List (Code ε)) :
    Path (first ++ second) events .returns := by
  generalize returns : Exit.returns = exit' at here
  induction here with
  | nil => cases returns
  | step _ ih => exact .step (ih returns)
  | pass _ ih => exact .pass (ih returns)
  | fail inside _ _ ih => exact .fail inside (ih returns)
  | failReturns inside => exact .failReturns inside
  | leave _ ih => exact .leave (ih returns)
  | again inside _ _ ih => exact .again inside (ih returns)
  | quit inside => exact .quit inside
  | ret => exact .ret

/-- A path through two parts returns in the first or falls through it. -/
theorem append_inv {first second : List (Code ε)} {events : List ε} {exit : Exit}
    (path : Path (first ++ second) events exit) :
    (exit = .returns ∧ Path first events .returns) ∨
      ∃ before after, events = before ++ after ∧ Path first before .falls ∧
        Path second after exit := by
  generalize split : first ++ second = code at path
  induction path generalizing first with
  | nil =>
      obtain ⟨rfl, rfl⟩ := List.append_eq_nil_iff.mp split
      exact .inr ⟨[], [], rfl, .nil, .nil⟩
  | @step event rest events exit path ih =>
      cases first with
      | nil => subst split; exact .inr ⟨[], _, rfl, .nil, .step path⟩
      | cons head tail =>
          obtain ⟨rfl, rfl⟩ := List.cons.inj split
          rcases ih rfl with ⟨returns, inside⟩ | ⟨before, after, rfl, inside, behind⟩
          · exact .inl ⟨returns, .step inside⟩
          · exact .inr ⟨event :: before, after, rfl, .step inside, behind⟩
  | @pass test body rest events exit path ih =>
      cases first with
      | nil => subst split; exact .inr ⟨[], _, rfl, .nil, .pass path⟩
      | cons head tail =>
          obtain ⟨rfl, rfl⟩ := List.cons.inj split
          rcases ih rfl with ⟨returns, inside⟩ | ⟨before, after, rfl, inside, behind⟩
          · exact .inl ⟨returns, .pass inside⟩
          · exact .inr ⟨test true :: before, after, rfl, .pass inside, behind⟩
  | @fail test body rest failed events exit body' path _ ih =>
      cases first with
      | nil => subst split; exact .inr ⟨[], _, rfl, .nil, .fail body' path⟩
      | cons head tail =>
          obtain ⟨rfl, rfl⟩ := List.cons.inj split
          rcases ih rfl with ⟨returns, inside⟩ | ⟨before, after, rfl, inside, behind⟩
          · exact .inl ⟨returns, .fail body' inside⟩
          · exact .inr ⟨test false :: (failed ++ before), after, by simp, .fail body' inside, behind⟩
  | @failReturns test body rest failed body' =>
      cases first with
      | nil => subst split; exact .inr ⟨[], _, rfl, .nil, .failReturns body'⟩
      | cons head tail =>
          obtain ⟨rfl, rfl⟩ := List.cons.inj split
          exact .inl ⟨rfl, .failReturns body'⟩
  | @leave body rest events exit path ih =>
      cases first with
      | nil => subst split; exact .inr ⟨[], _, rfl, .nil, .leave path⟩
      | cons head tail =>
          obtain ⟨rfl, rfl⟩ := List.cons.inj split
          rcases ih rfl with ⟨returns, inside⟩ | ⟨before, after, rfl, inside, behind⟩
          · exact .inl ⟨returns, .leave inside⟩
          · exact .inr ⟨before, after, rfl, .leave inside, behind⟩
  | @again body rest round events exit body' path _ ih =>
      cases first with
      | nil => subst split; exact .inr ⟨[], _, rfl, .nil, .again body' path⟩
      | cons head tail =>
          rcases ih split with ⟨returns, inside⟩ | ⟨before, after, rfl, inside, behind⟩
          · obtain ⟨rfl, rfl⟩ := List.cons.inj split
            exact .inl ⟨returns, .again body' inside⟩
          · obtain ⟨rfl, rfl⟩ := List.cons.inj split
            exact .inr ⟨round ++ before, after, by simp, .again body' inside, behind⟩
  | @quit body rest round body' =>
      cases first with
      | nil => subst split; exact .inr ⟨[], _, rfl, .nil, .quit body'⟩
      | cons head tail =>
          obtain ⟨rfl, rfl⟩ := List.cons.inj split
          exact .inl ⟨rfl, .quit body'⟩
  | @ret rest =>
      cases first with
      | nil => subst split; exact .inr ⟨[], _, rfl, .nil, .ret⟩
      | cons head tail =>
          obtain ⟨rfl, rfl⟩ := List.cons.inj split
          exact .inl ⟨rfl, .ret⟩

/-- A loop falls through after rounds that all fall through, or returns in a
round after such rounds. -/
theorem loop_inv (round : List ε → Prop) {body : List (Code ε)} {events : List ε} {exit : Exit}
    (nil : round []) (append : ∀ first second, round first → round second → round (first ++ second))
    (falls : ∀ events, Path body events .falls → round events)
    (path : Path [.loop body] events exit) :
    (exit = .falls ∧ round events) ∨
      ∃ before last, exit = .returns ∧ events = before ++ last ∧ round before ∧
        Path body last .returns := by
  generalize single : [Code.loop body] = code at path
  induction path with
  | nil | step | pass | fail | failReturns | ret => cases single
  | @leave body' rest events exit path =>
      obtain ⟨-, rfl⟩ := List.cons.inj single
      cases path
      exact .inl ⟨rfl, nil⟩
  | @again body' rest inside events exit body'' path _ ih =>
      have rounds := ih single
      obtain ⟨same, rfl⟩ := List.cons.inj single
      obtain rfl := Code.loop.inj same
      rcases rounds with ⟨rfl, kept⟩ | ⟨before, last, rfl, rfl, kept, returned⟩
      · exact .inl ⟨rfl, append _ _ (falls _ body'') kept⟩
      · exact .inr ⟨inside ++ before, last, rfl, by simp, append _ _ (falls _ body'') kept, returned⟩
  | @quit body' rest inside body'' =>
      obtain ⟨same, rfl⟩ := List.cons.inj single
      obtain rfl := Code.loop.inj same
      exact .inr ⟨[], inside, rfl, rfl, nil, body''⟩

end Path

end EarlyReturn
