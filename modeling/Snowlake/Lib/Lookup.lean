import Mathlib.Data.List.Basic

/-! # Lookup trees

A list as a tree, whose items are found in a number of steps that is the logarithm
of their place.
-/

/-- The first item, those at odd places and the other ones. -/
inductive Lookup (α : Type) where
  | leaf
  | node (value : α) (odd even : Lookup α)

namespace Lookup

variable {α : Type}

def get : Lookup α → ℕ → Option α
  | .leaf, _ => none
  | .node value odd even, index =>
      match index with
      | 0 => some value
      | index + 1 => if index % 2 = 0 then odd.get (index / 2) else even.get (index / 2)

def cons (first : α) : Lookup α → Lookup α
  | .leaf => .node first .leaf .leaf
  | .node value odd even => .node first (cons value even) odd

def ofList : List α → Lookup α
  | [] => .leaf
  | first :: rest => cons first (ofList rest)

@[simp] theorem get_leaf (index : ℕ) : (leaf : Lookup α).get index = none := rfl

@[simp] theorem get_node_zero (value : α) (odd even : Lookup α) :
    (node value odd even).get 0 = some value := rfl

theorem get_node_succ (value : α) (odd even : Lookup α) (index : ℕ) :
    (node value odd even).get (index + 1) =
      if index % 2 = 0 then odd.get (index / 2) else even.get (index / 2) := rfl

theorem get_cons_zero (first : α) (tree : Lookup α) : (cons first tree).get 0 = some first := by
  cases tree <;> rfl

theorem get_cons_succ (first : α) (tree : Lookup α) (index : ℕ) :
    (cons first tree).get (index + 1) = tree.get index := by
  induction tree generalizing first index with
  | leaf => simp [cons, get_node_succ]
  | node value odd even _ ihEven =>
      rw [cons, get_node_succ]
      cases index with
      | zero => exact get_cons_zero value even
      | succ index =>
          rw [get_node_succ]
          by_cases isEven : index % 2 = 0
          · have isOdd : ¬ (index + 1) % 2 = 0 := by omega
            have half : (index + 1) / 2 = index / 2 := by omega
            rw [if_neg isOdd, if_pos isEven, half]
          · have isNext : (index + 1) % 2 = 0 := by omega
            have half : (index + 1) / 2 = index / 2 + 1 := by omega
            rw [if_pos isNext, if_neg isEven, half, ihEven]

theorem get_ofList (items : List α) (index : ℕ) : (ofList items).get index = items[index]? := by
  induction items generalizing index with
  | nil => cases index <;> rfl
  | cons first rest ih =>
      cases index with
      | zero => exact get_cons_zero first _
      | succ index =>
          rw [ofList, get_cons_succ, ih]
          rfl

end Lookup
