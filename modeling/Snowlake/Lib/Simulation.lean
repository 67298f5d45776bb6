import Mathlib.Algebra.Group.Nat.Defs
import Mathlib.Logic.Basic

/-! # Simulation of stateful computations

Two computations over one state that may get stuck: they get stuck together, or
leave the same state and related results.  A counted loop with two counters, as
`for (size_t i = ..., j = ...; i < bound; ++i, ++j)`, respects such relations.
-/

namespace Simulation

variable {σ α β γ δ : Type}

/-- `x` and `y` get stuck together, or end in the same state with related results. -/
def Simulates (related : α → β → Prop) (x : StateT σ Option α) (y : StateT σ Option β) : Prop :=
  ∀ state, Option.Rel (fun first second => related first.1 second.1 ∧ first.2 = second.2)
    (x.run state) (y.run state)

namespace Simulates

theorem refl (x : StateT σ Option α) : Simulates Eq x x := by
  intro state
  cases x.run state with
  | none => exact .none
  | some result => exact .some ⟨rfl, rfl⟩

theorem pure {related : α → β → Prop} {a : α} {b : β} (holds : related a b) :
    Simulates related (Pure.pure a : StateT σ Option α) (Pure.pure b : StateT σ Option β) :=
  fun _ => .some ⟨holds, rfl⟩

theorem bind {related : α → β → Prop} {after : γ → δ → Prop} {x : StateT σ Option α}
    {y : StateT σ Option β} {f : α → StateT σ Option γ} {g : β → StateT σ Option δ}
    (first : Simulates related x y) (rest : ∀ a b, related a b → Simulates after (f a) (g b)) :
    Simulates after (x >>= f) (y >>= g) := by
  intro state
  rw [StateT.run_bind, StateT.run_bind]
  have ran := first state
  revert ran
  rcases x.run state with _ | ⟨a, left⟩ <;> rcases y.run state with _ | ⟨b, right⟩
  · exact fun _ => .none
  · exact nofun
  · exact nofun
  · rintro ⟨⟨holds, same⟩⟩
    obtain rfl : left = right := same
    exact rest a b holds left

/-- Both sides start with the same step. -/
theorem bind_same {after : γ → δ → Prop} {x : StateT σ Option α} {f : α → StateT σ Option γ}
    {g : α → StateT σ Option δ} (rest : ∀ a, Simulates after (f a) (g a)) :
    Simulates after (x >>= f) (x >>= g) :=
  (refl x).bind fun a _ same => same ▸ rest a

theorem mono {related weaker : α → β → Prop} {x : StateT σ Option α} {y : StateT σ Option β}
    (first : Simulates related x y) (weaken : ∀ a b, related a b → weaker a b) :
    Simulates weaker x y := by
  intro state
  have ran := first state
  revert ran
  generalize x.run state = left
  generalize y.run state = right
  rintro (⟨⟨holds, same⟩⟩ | _)
  · exact .some ⟨weaken _ _ holds, same⟩
  · exact .none

/-- Results related by a function: the computations are equal but for it. -/
theorem eq_map {f : β → α} {x : StateT σ Option α} {y : StateT σ Option β}
    (simulates : Simulates (fun a b => a = f b) x y) : x = f <$> y := by
  funext state
  have ran := simulates state
  change x.run state = (f <$> y).run state
  rw [StateT.run_map]
  revert ran
  rcases x.run state with _ | ⟨a, left⟩ <;> rcases y.run state with _ | ⟨b, right⟩
  · exact fun _ => rfl
  · exact nofun
  · exact nofun
  · rintro ⟨⟨holds, same⟩⟩
    obtain rfl : left = right := same
    obtain rfl : a = f b := holds
    rfl

end Simulates

/-! ## Counted loops -/

section Loop

variable {m : Type → Type} [Monad m] {ρ : Type}

/-- `for (i = ..., j = ...; i < bound; ++i, ++j) body`, where the bound is
evaluated before each round and `body` may leave the loop with a result. -/
def countedLoop (bound : UInt64 → UInt64 → m UInt64) (body : UInt64 → UInt64 → m (Option ρ))
    (i j : UInt64) : m (Option ρ) := do
  let size ← bound i j
  if _below : i < size then
    match ← body i j with
    | some result => pure (some result)
    | none => countedLoop bound body (i + 1) (j + 1)
  else
    pure none
termination_by 2 ^ 64 - i.toNat
decreasing_by
  -- The first counter stays below a number of 64 bits, so it does not wrap around.
  have less := UInt64.lt_iff_toNat_lt.mp _below
  have small := size.toNat_lt
  rw [UInt64.toNat_add, Nat.mod_eq_of_lt] <;> simp <;> omega

end Loop

/-- Loops simulate each other when their bounds agree and their bodies do. -/
theorem Simulates.loop {ρ ρ' : Type} {related : ρ → ρ' → Prop}
    {bound bound' : UInt64 → UInt64 → StateT σ Option UInt64}
    {body : UInt64 → UInt64 → StateT σ Option (Option ρ)}
    {body' : UInt64 → UInt64 → StateT σ Option (Option ρ')}
    (bounds : ∀ i j, Simulates Eq (bound i j) (bound' i j))
    (bodies : ∀ i j, Simulates (Option.Rel related) (body i j) (body' i j)) (i j : UInt64) :
    Simulates (Option.Rel related) (countedLoop bound body i j)
      (countedLoop bound' body' i j) := by
  induction i, j using countedLoop.induct with
  | case1 i j ih =>
      rw [countedLoop.eq_def bound body, countedLoop.eq_def bound' body']
      refine (bounds i j).bind fun size _ same => ?_
      subst same
      by_cases below : i < size
      · simp only [below, dite_true]
        refine (bodies i j).bind fun result result' holds => ?_
        cases holds with
        | some holds => exact .pure (.some holds)
        | none => exact ih size below
      · simp only [below, dite_false]
        exact .pure .none

end Simulation
