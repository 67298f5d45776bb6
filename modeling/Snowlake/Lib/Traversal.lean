import Mathlib.Control.Monad.Basic
import Snowlake.Lib.Bracketed

/-! # Trees walked by hooks that may give up

A hook is called when a walk enters a node and when it leaves it.  The walk ends
with the first hook that answers `false`.  Nothing is known about the hooks: they
run in any monad, so an answer may depend on all that happened before.
-/

namespace Traversal

open Bracketed

/-- A node with its subtrees, in order. -/
inductive OrderedTree (ν : Type) where
  | node (value : ν) (children : List (OrderedTree ν))

/-- A node without subtrees. -/
def OrderedTree.leaf {ν : Type} (value : ν) : OrderedTree ν := .node value []

/-- What happens to a node in the course of a walk. -/
inductive WalkEvent (ν : Type) where
  | enter (node : ν)
  | leave (node : ν)
  deriving Repr, DecidableEq

namespace WalkEvent

variable {ν : Type}

/-- Entering a node opens a scope that leaving it closes. -/
def role : WalkEvent ν → Role ν
  | .enter node => .opens node
  | .leave node => .closes node

def entered : WalkEvent ν → Option ν
  | .enter node => some node
  | .leave _ => none

def left : WalkEvent ν → Option ν
  | .enter _ => none
  | .leave node => some node

end WalkEvent

namespace OrderedTree

variable {ν : Type}

mutual
/-- A node is entered before its children and left after them. -/
def events : OrderedTree ν → List (WalkEvent ν)
  | .node value children => .enter value :: (eventsList children ++ [.leave value])

def eventsList : List (OrderedTree ν) → List (WalkEvent ν)
  | [] => []
  | head :: tail => events head ++ eventsList tail
end

mutual
/-- The nodes, parents first. -/
def preorder : OrderedTree ν → List ν
  | .node value children => value :: preorderList children

def preorderList : List (OrderedTree ν) → List ν
  | [] => []
  | head :: tail => preorder head ++ preorderList tail
end

mutual
/-- The nodes, children first. -/
def postorder : OrderedTree ν → List ν
  | .node value children => postorderList children ++ [value]

def postorderList : List (OrderedTree ν) → List ν
  | [] => []
  | head :: tail => postorder head ++ postorderList tail
end

theorem eventsList_append (first second : List (OrderedTree ν)) :
    eventsList (first ++ second) = eventsList first ++ eventsList second := by
  induction first with
  | nil => rfl
  | cons head tail ih => simp only [List.cons_append, eventsList, ih, List.append_assoc]

mutual
theorem events_wellBracketed (tree : OrderedTree ν) : WellBracketed WalkEvent.role (events tree) := by
  cases tree with
  | node value children =>
      rw [events]
      exact .scope rfl (eventsList_wellBracketed children) rfl .nil

theorem eventsList_wellBracketed (trees : List (OrderedTree ν)) :
    WellBracketed WalkEvent.role (eventsList trees) := by
  cases trees with
  | nil => exact .nil
  | cons head tail =>
      rw [eventsList]
      exact (events_wellBracketed head).append (eventsList_wellBracketed tail)
end

mutual
/-- Each node is entered once, parents first. -/
theorem entered_events (tree : OrderedTree ν) :
    (events tree).filterMap WalkEvent.entered = preorder tree := by
  cases tree with
  | node value children =>
      have inside := entered_eventsList children
      rw [events, preorder, List.filterMap_cons, List.filterMap_append, inside]
      exact congrArg (value :: ·) (List.append_nil _)

theorem entered_eventsList (trees : List (OrderedTree ν)) :
    (eventsList trees).filterMap WalkEvent.entered = preorderList trees := by
  cases trees with
  | nil => rfl
  | cons head tail =>
      rw [eventsList, preorderList, List.filterMap_append, entered_events head, entered_eventsList tail]
end

mutual
/-- Each node is left once, children first. -/
theorem left_events (tree : OrderedTree ν) : (events tree).filterMap WalkEvent.left = postorder tree := by
  cases tree with
  | node value children =>
      have inside := left_eventsList children
      rw [events, postorder, List.filterMap_cons, List.filterMap_append, inside]
      rfl

theorem left_eventsList (trees : List (OrderedTree ν)) :
    (eventsList trees).filterMap WalkEvent.left = postorderList trees := by
  cases trees with
  | nil => rfl
  | cons head tail =>
      rw [eventsList, postorderList, List.filterMap_append, left_events head, left_eventsList tail]
end

mutual
/-- Both orders list the same nodes. -/
theorem postorder_perm (tree : OrderedTree ν) : (postorder tree).Perm (preorder tree) := by
  cases tree with
  | node value children =>
      rw [postorder, preorder]
      exact (List.perm_append_singleton value _).trans ((postorderList_perm children).cons value)

theorem postorderList_perm (trees : List (OrderedTree ν)) :
    (postorderList trees).Perm (preorderList trees) := by
  cases trees with
  | nil => exact .nil
  | cons head tail =>
      rw [postorderList, preorderList]
      exact (postorder_perm head).append (postorderList_perm tail)
end

end OrderedTree

/-! ## Hooks called along a list -/

variable {ε : Type}

section Call

variable {m : Type → Type} [Monad m]

/-- Each event in turn, until a hook answers `false`. -/
def callAll (hook : ε → m Bool) : List ε → m Bool
  | [] => pure true
  | event :: rest => do
      if ← hook event then callAll hook rest else pure false

variable [LawfulMonad m]

theorem callAll_append (hook : ε → m Bool) (first second : List ε) :
    callAll hook (first ++ second) =
      (do if ← callAll hook first then callAll hook second else pure false) := by
  induction first with
  | nil => simp [callAll]
  | cons event rest ih =>
      simp only [List.cons_append, callAll, ih, bind_assoc]
      congr 1
      funext answer
      cases answer <;> simp

end Call

/-! ## The calls of a run -/

/-- Hooks that always answer `true` are all called. -/
theorem callAll_true {σ : Type} {hook : ε → StateM σ Bool} (always : ∀ event state, (hook event state).1 = true)
    (events : List ε) (state : σ) : (callAll hook events state).1 = true := by
  induction events generalizing state with
  | nil => rfl
  | cons event rest ih =>
      have answered := always event state
      cases called : hook event state with
      | mk answer next =>
          rw [called] at answered
          obtain rfl : answer = true := answered
          simp only [callAll, bind, StateT.bind, called]
          exact ih next

/-- A hook that notes each event with its answer. -/
def recording {σ : Type} (hook : ε → StateM σ Bool) (event : ε) : StateM (σ × List (ε × Bool)) Bool :=
  fun (state, calls) =>
    let (answer, final) := hook event state
    (answer, final, calls ++ [(event, answer)])

/-- `calls` goes through `events` up to the first answer `false`, and `answer`
says whether there was none. -/
structure UpToFailure (events : List ε) (calls : List (ε × Bool)) (answer : Bool) : Prop where
  inOrder : ∃ rest, events = calls.map (·.1) ++ rest ∧ (answer = true → rest = [])
  nothingAfter : ∀ before event after, calls = before ++ (event, false) :: after → after = []
  answer_iff : answer = true ↔ ∀ call ∈ calls, call.2 = true

theorem UpToFailure.cons {events : List ε} {calls : List (ε × Bool)} {answer : Bool} (event : ε)
    (rest : UpToFailure events calls answer) :
    UpToFailure (event :: events) ((event, true) :: calls) answer where
  inOrder := by
    obtain ⟨left, split, complete⟩ := rest.inOrder
    exact ⟨left, by rw [split]; rfl, complete⟩
  nothingAfter := by
    intro before failed after split
    cases before with
    | nil => simp at split
    | cons first before => exact rest.nothingAfter before failed after (List.cons.inj split).2
  answer_iff := by
    rw [rest.answer_iff]
    simp

theorem UpToFailure.failed (event : ε) (events : List ε) :
    UpToFailure (event :: events) [(event, false)] false where
  inOrder := ⟨events, rfl, fun yes => nomatch yes⟩
  nothingAfter := by
    intro before failed after split
    cases before with
    | nil => exact (List.cons.inj split).2.symm
    | cons first before => simp at split
  answer_iff := by simp

/-- Noting the calls changes nothing else, and the calls go through the events
up to the first failure. -/
theorem callAll_recording {σ : Type} (hook : ε → StateM σ Bool) (events : List ε) (state : σ)
    (before : List (ε × Bool)) :
    ∃ calls answer final, callAll hook events state = (answer, final) ∧
      callAll (recording hook) events (state, before) = (answer, final, before ++ calls) ∧
      UpToFailure events calls answer := by
  induction events generalizing state before with
  | nil => exact ⟨[], true, state, rfl, by simp [callAll]; rfl, ⟨[], rfl, fun _ => rfl⟩, by simp, by simp⟩
  | cons event rest ih =>
      cases called : hook event state with
      | mk answer next =>
          cases answer with
          | false =>
              refine ⟨[(event, false)], false, next, ?_, ?_, .failed event rest⟩
              · simp only [callAll, bind, StateT.bind, called]; rfl
              · simp only [callAll, bind, StateT.bind, recording, called]; rfl
          | true =>
              obtain ⟨calls, answer, final, run, recorded, upTo⟩ := ih next (before ++ [(event, true)])
              refine ⟨(event, true) :: calls, answer, final, ?_, ?_, upTo.cons event⟩
              · simp only [callAll, bind, StateT.bind, called]; exact run
              · simp only [callAll, bind, StateT.bind, recording, called]
                simpa using recorded

end Traversal
