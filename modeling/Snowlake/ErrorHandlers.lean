import Mathlib.Data.List.Induction
import Mathlib.Data.List.Infix

/-! # Scoped error handlers

`src/CompilerErrorHandlerRegistrar.cpp`.  A scope registers its handler in one
static slot and empties the slot at its end.  The scopes that are open form a
stack; the slot follows its top only as long as no scope is closed inside
another one.
-/

namespace Snowlake

/-- What a program does with the registrar.  A handler is a `std::function`,
which may be empty. -/
inductive HandlerOperation (η ε : Type) where
  /-- `ScopedCompilerErrorHandlerRegister(handler)`. -/
  | construct (handler : Option η)
  /-- `~ScopedCompilerErrorHandlerRegister()`. -/
  | destruct
  | registerCompilerError (error : ε)
  deriving Repr, DecidableEq

/-- The static slot, and the calls made of handlers so far. -/
structure CompilerErrorHandlerRegistrar (η ε : Type) where
  registeredHandler : Option η := none
  delivered : List (η × ε) := []
  deriving Repr, DecidableEq

variable {η ε : Type}

namespace CompilerErrorHandlerRegistrar

def registerScopedCompilerErrorHandler (handler : Option η) (registrar : CompilerErrorHandlerRegistrar η ε) :
    CompilerErrorHandlerRegistrar η ε :=
  { registrar with registeredHandler := handler }

def registerCompilerError (error : ε) (registrar : CompilerErrorHandlerRegistrar η ε) :
    CompilerErrorHandlerRegistrar η ε :=
  match registrar.registeredHandler with
  | some handler => { registrar with delivered := registrar.delivered ++ [(handler, error)] }
  | none => registrar

def unregisterScopedCompilerErrorHandler (registrar : CompilerErrorHandlerRegistrar η ε) :
    CompilerErrorHandlerRegistrar η ε :=
  { registrar with registeredHandler := none }

def step (registrar : CompilerErrorHandlerRegistrar η ε) :
    HandlerOperation η ε → CompilerErrorHandlerRegistrar η ε
  | .construct handler => registrar.registerScopedCompilerErrorHandler handler
  | .destruct => registrar.unregisterScopedCompilerErrorHandler
  | .registerCompilerError error => registrar.registerCompilerError error

def run (operations : List (HandlerOperation η ε)) : CompilerErrorHandlerRegistrar η ε :=
  operations.foldl step {}

theorem run_concat (operations : List (HandlerOperation η ε)) (last : HandlerOperation η ε) :
    run (operations ++ [last]) = (run operations).step last := by
  simp only [run, List.foldl_append, List.foldl_cons, List.foldl_nil]

end CompilerErrorHandlerRegistrar

/-! ## The stack of scopes -/

/-- What the scopes are for: the handlers of the open ones, the innermost first,
and which of them each error was for. -/
structure HandlerScopes (η ε : Type) where
  scopes : List (Option η) := []
  deliveries : List (Option η × ε) := []

namespace HandlerScopes

/-- The handler that is in force. -/
def innermost (stack : HandlerScopes η ε) : Option η := stack.scopes.head?.join

/-- There is no scope to close when none is open. -/
def step (stack : HandlerScopes η ε) : HandlerOperation η ε → Option (HandlerScopes η ε)
  | .construct handler => some { stack with scopes := handler :: stack.scopes }
  | .destruct =>
      match stack.scopes with
      | [] => none
      | _ :: enclosing => some { stack with scopes := enclosing }
  | .registerCompilerError error =>
      match stack.scopes with
      | [] => some stack
      | handler :: _ => some { stack with deliveries := stack.deliveries ++ [(handler, error)] }

def run (operations : List (HandlerOperation η ε)) : Option (HandlerScopes η ε) :=
  operations.foldlM step {}

theorem run_concat (operations : List (HandlerOperation η ε)) (last : HandlerOperation η ε) :
    run (operations ++ [last]) = (run operations).bind fun stack => stack.step last := by
  simp only [run, List.foldlM_append, List.foldlM_cons, List.foldlM_nil, bind_pure]
  rfl

end HandlerScopes

namespace CompilerErrorHandlerRegistrar

/-- Every scope that is closed was opened. -/
def WellNested (operations : List (HandlerOperation η ε)) : Prop :=
  (HandlerScopes.run operations).isSome = true

/-- At every moment each error so far was delivered once, to the handler of its
innermost open scope; after the end of a scope the handler of the enclosing one
is registered. -/
structure DeliversToInnermost (operations : List (HandlerOperation η ε)) : Prop where
  delivered : ∀ before stack, before <+: operations → HandlerScopes.run before = some stack →
    (run before).delivered.map (Prod.map some id) = stack.deliveries
  restored : ∀ before stack, before ++ [.destruct] <+: operations →
    HandlerScopes.run (before ++ [.destruct]) = some stack →
      (run (before ++ [.destruct])).registeredHandler = stack.innermost

/-- No scope ends inside another that has a handler, and no error is registered
while the innermost scope has none. -/
structure OneSlotSuffices (operations : List (HandlerOperation η ε)) : Prop where
  destructed : ∀ before stack, before ++ [.destruct] <+: operations →
    HandlerScopes.run (before ++ [.destruct]) = some stack → stack.innermost = none
  registered : ∀ before error stack, before ++ [.registerCompilerError error] <+: operations →
    HandlerScopes.run before = some stack → stack.scopes.head? ≠ some none

theorem OneSlotSuffices.before {earlier operations : List (HandlerOperation η ε)}
    (enough : OneSlotSuffices operations) (within : earlier <+: operations) :
    OneSlotSuffices earlier := by
  constructor
  · intro before stack shorter
    exact enough.destructed before stack (shorter.trans within)
  · intro before error stack shorter
    exact enough.registered before error stack (shorter.trans within)

/-- The slot holds the handler in force, and the calls are the deliveries. -/
structure Follows (registrar : CompilerErrorHandlerRegistrar η ε) (stack : HandlerScopes η ε) : Prop where
  slot : registrar.registeredHandler = stack.innermost
  calls : registrar.delivered.map (Prod.map some id) = stack.deliveries

theorem Follows.step {registrar : CompilerErrorHandlerRegistrar η ε} {stack next : HandlerScopes η ε}
    (follows : Follows registrar stack) {operation : HandlerOperation η ε}
    (steps : stack.step operation = some next)
    (destructed : operation = .destruct → next.innermost = none)
    (registered : ∀ error, operation = .registerCompilerError error → stack.scopes.head? ≠ some none) :
    Follows (registrar.step operation) next := by
  cases operation with
  | construct handler =>
      obtain rfl := Option.some.inj steps
      exact ⟨rfl, follows.calls⟩
  | destruct =>
      rw [HandlerScopes.step] at steps
      split at steps
      · cases steps
      · have calls : next.deliveries = stack.deliveries := by
          obtain rfl := Option.some.inj steps
          rfl
        exact ⟨(destructed rfl).symm, follows.calls.trans calls.symm⟩
  | registerCompilerError error =>
      have handled := registered error rfl
      have slot := follows.slot
      rw [HandlerScopes.innermost] at slot
      rw [HandlerScopes.step] at steps
      rw [CompilerErrorHandlerRegistrar.step, registerCompilerError, slot]
      cases scopes : stack.scopes with
      | nil =>
          simp only [scopes, Option.some.injEq] at steps
          subst steps
          exact follows
      | cons handler enclosing =>
          cases handler with
          | none => exact absurd (by rw [scopes, List.head?_cons]) handled
          | some handler =>
              simp only [scopes, Option.some.injEq] at steps
              subst steps
              constructor
              · rfl
              · simp [follows.calls]

theorem follows_run {operations : List (HandlerOperation η ε)} (enough : OneSlotSuffices operations)
    {stack : HandlerScopes η ε} (runs : HandlerScopes.run operations = some stack) :
    Follows (run operations) stack := by
  induction operations using List.reverseRecOn generalizing stack with
  | nil =>
      obtain rfl := Option.some.inj runs
      exact ⟨rfl, rfl⟩
  | append_singleton operations last ih =>
      have whole := runs
      rw [HandlerScopes.run_concat] at runs
      obtain ⟨earlier, ran, steps⟩ := Option.bind_eq_some_iff.mp runs
      have follows := ih (enough.before (List.prefix_append _ _)) ran
      rw [run_concat]
      apply follows.step steps
      · intro isDestruct
        subst isDestruct
        exact enough.destructed operations stack List.prefix_rfl whole
      · intro error isError
        subst isError
        exact enough.registered operations error earlier List.prefix_rfl ran

/-- One slot keeps the discipline of a stack in the runs that need no stack, and
in no others.  A run is followed up to where it closes a scope that is not open. -/
theorem deliversToInnermost_iff (operations : List (HandlerOperation η ε)) :
    DeliversToInnermost operations ↔ OneSlotSuffices operations := by
  constructor
  · intro delivers
    constructor
    case destructed =>
      intro before stack within runs
      rw [← delivers.restored before stack within runs, run_concat]
      rfl
    case registered =>
      intro before error stack within runs noHandler
      obtain ⟨enclosing, scopes⟩ := List.head?_eq_some_iff.mp noHandler
      have steps : HandlerScopes.run (before ++ [.registerCompilerError error]) =
          some { stack with deliveries := stack.deliveries ++ [(none, error)] } := by
        rw [HandlerScopes.run_concat, runs, Option.bind_some, HandlerScopes.step, scopes]
      -- A delivery to no handler would have to be a call.
      have called : (none, error) ∈ (run (before ++ [.registerCompilerError error])).delivered.map
          (Prod.map some id) := by
        rw [delivers.delivered _ _ within steps]
        simp
      simp at called
  · intro enough
    constructor
    case delivered =>
      intro before stack within runs
      exact (follows_run (enough.before within) runs).calls
    case restored =>
      intro before stack within runs
      exact (follows_run (enough.before within) runs).slot

/-- Two nested scopes, and an error after the inner one. -/
def nestedScopes : List (HandlerOperation Nat String) :=
  [.construct (some 0), .construct (some 1), .destruct, .registerCompilerError "lost", .destruct]

/-- The error of the outer scope reaches nobody. -/
theorem nestedScopes_lose : WellNested nestedScopes ∧ (run nestedScopes).delivered = [] ∧
    ¬ DeliversToInnermost nestedScopes := by
  refine ⟨rfl, rfl, ?_⟩
  intro delivers
  have calls := delivers.delivered nestedScopes ⟨[], [(some 0, "lost")]⟩ List.prefix_rfl rfl
  cases calls

end CompilerErrorHandlerRegistrar

end Snowlake
