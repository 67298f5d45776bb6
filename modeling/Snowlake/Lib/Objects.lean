import Mathlib.Data.List.Nodup
import Mathlib.Data.List.Range
import Mathlib.Data.List.Perm.Basic

/-! # Objects in raw storage

Storage is memory for one object, whose type the memory does not know.  A program
constructs objects into storage, reads them and destroys them; a ledger counts
the objects and notes which were destroyed, and over which another one was
constructed.  Nothing here destroys an object on its own account.
-/

namespace Objects

variable {τ : Type} {V : τ → Type}

/-- An object, known by the number of those constructed before it. -/
structure Object (τ : Type) (V : τ → Type) where
  serial : Nat
  type : τ
  value : V type

/-- Memory for one object. -/
abbrev Storage (τ : Type) (V : τ → Type) := Option (Object τ V)

structure Ledger where
  constructed : Nat := 0
  destroyed : List Nat := []
  /-- The live objects into whose storage another object was constructed. -/
  overwritten : List Nat := []
  deriving Repr, DecidableEq

/-- How a program ends other than by returning. -/
inductive Failure where
  | thrown (message : String)
  | aborted (assertion : String)
  /-- What the language leaves undefined. -/
  | undefined
  /-- There is no such program. -/
  | illFormed
  deriving Repr, DecidableEq

abbrev Exec := StateT Ledger (Except Failure)

section Bind

variable {α β : Type} {program : Exec α} {next : α → Exec β} {ledger after : Ledger}

theorem bind_ok {result : α} (ran : program ledger = .ok (result, after)) :
    (program >>= next) ledger = next result after := by
  change Except.bind (program ledger) _ = _
  rw [ran]
  rfl

theorem bind_error {failure : Failure} (failed : program ledger = .error failure) :
    (program >>= next) ledger = .error failure := by
  change Except.bind (program ledger) _ = _
  rw [failed]
  rfl

end Bind

/-! ## Construction, access, destruction -/

def Ledger.construct (ledger : Ledger) (storage : Storage τ V) : Ledger :=
  { ledger with
    constructed := ledger.constructed + 1
    overwritten := ledger.overwritten ++ storage.toList.map (·.serial) }

def Ledger.destroy (ledger : Ledger) (serial : Nat) : Ledger :=
  { ledger with destroyed := ledger.destroyed ++ [serial] }

/-- `new (storage) type(value)`. -/
def construct (type : τ) (value : V type) (storage : Storage τ V) : Exec (Storage τ V) :=
  fun ledger => .ok (some ⟨ledger.constructed, type, value⟩, ledger.construct storage)

section Typed

variable [DecidableEq τ]

/-- The object as one of the given type, which it must be. -/
def Object.as? (object : Object τ V) (type : τ) : Option (V type) :=
  if same : object.type = type then some (same ▸ object.value) else none

@[simp] theorem Object.as?_self (serial : Nat) (type : τ) (value : V type) :
    (Object.mk serial type value).as? type = some value := by
  simp [as?]

/-- `*reinterpret_cast<type*>(storage)`. -/
def read {m : Type → Type} [Monad m] [MonadExceptOf Failure m] (type : τ) (storage : Storage τ V) :
    m (V type) :=
  match storage.bind (·.as? type) with
  | some value => pure value
  | none => throw .undefined

@[simp] theorem read_some {m : Type → Type} [Monad m] [MonadExceptOf Failure m] (serial : Nat) (type : τ)
    (value : V type) : read (m := m) type (some (Object.mk serial type value)) = pure value := by
  simp [read]

/-- `reinterpret_cast<type*>(storage)->~type()`. -/
def destruct (type : τ) (storage : Storage τ V) : Exec (Storage τ V) :=
  fun ledger =>
    match storage with
    | some object => if object.type = type then .ok (none, ledger.destroy object.serial) else .error .undefined
    | none => .error .undefined

end Typed

/-! ## The books -/

namespace Ledger

/-- Every object constructed was destroyed once, is held, or is lost, that is
alive in no storage or in storage nobody owns; what was overwritten is lost. -/
structure Accounts (held lost : List Nat) (ledger : Ledger) : Prop where
  all : (ledger.destroyed ++ (held ++ lost)).Perm (List.range ledger.constructed)
  overwritten : ledger.overwritten ⊆ lost

variable {held lost : List Nat} {ledger : Ledger}

theorem accounts_empty : Accounts [] [] {} := ⟨.nil, List.nil_subset _⟩

namespace Accounts

theorem of_perm (accounts : Accounts held lost ledger) {held' : List Nat} (same : held.Perm held') :
    Accounts held' lost ledger :=
  ⟨((same.append_right _).symm.append_left _).trans accounts.all, accounts.overwritten⟩

/-- An object that is held becomes one that is lost. -/
theorem lose {serial : Nat} (accounts : Accounts (serial :: held) lost ledger) :
    Accounts held (serial :: lost) ledger :=
  ⟨(List.perm_middle.append_left _).trans accounts.all,
    List.Subset.trans accounts.overwritten (List.subset_cons_self _ _)⟩

/-- A new object is held, if the storage held only what is lost. -/
theorem construct (accounts : Accounts held lost ledger) (storage : Storage τ V)
    (free : ∀ object ∈ storage, object.serial ∈ lost) :
    Accounts (ledger.constructed :: held) lost (ledger.construct storage) := by
  constructor
  case all =>
    change (ledger.destroyed ++ (ledger.constructed :: held ++ lost)).Perm
      (List.range (ledger.constructed + 1))
    rw [List.range_succ]
    refine (List.perm_middle.trans ?_).trans (List.perm_append_singleton _ _).symm
    exact accounts.all.cons _
  case overwritten =>
    apply List.append_subset.mpr
    refine ⟨accounts.overwritten, ?_⟩
    intro serial member
    obtain ⟨object, inside, rfl⟩ := List.mem_map.mp member
    exact free object (Option.mem_toList.mp inside)

theorem destroy {serial : Nat} (accounts : Accounts (serial :: held) lost ledger) :
    Accounts held lost (ledger.destroy serial) := by
  constructor
  case all =>
    change (ledger.destroyed ++ [serial] ++ (held ++ lost)).Perm (List.range ledger.constructed)
    rw [List.append_assoc]
    exact accounts.all
  case overwritten => exact accounts.overwritten

/-- No object is destroyed twice. -/
theorem destroyed_nodup (accounts : Accounts held lost ledger) : ledger.destroyed.Nodup :=
  (List.nodup_append.mp (accounts.all.nodup_iff.mpr List.nodup_range)).1

/-- Without losses nothing was overwritten. -/
theorem overwritten_eq_nil (accounts : Accounts held [] ledger) : ledger.overwritten = [] :=
  List.subset_nil.mp accounts.overwritten

/-- When no object is held any more, each was destroyed, unless some are lost. -/
theorem destroyed_perm_iff (accounts : Accounts [] lost ledger) :
    ledger.destroyed.Perm (List.range ledger.constructed) ↔ lost = [] := by
  constructor
  · intro all
    have lengths := (accounts.all.trans all.symm).length_eq
    simp only [List.nil_append, List.length_append] at lengths
    exact List.length_eq_zero_iff.mp (by omega)
  · intro none
    have all := accounts.all
    rwa [none, List.nil_append, List.append_nil] at all

end Accounts

end Ledger

end Objects
