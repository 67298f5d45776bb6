import Snowlake.Variant.Variant

/-! # Visits

`src/variant_dispatcher.h`, and `apply_visitor` of `src/variant.h`.  A visitor is
a function that takes a value of any alternative and has effects in a monad `m`.
What the dispatchers know of an operand is its index and what `get` gives; the
constant and the non-constant overloads differ in no more.
-/

namespace Snowlake.Variant

open Objects VariantImpl

variable {τ : Type} {V A B : τ → Type} {types : Pack τ} {R : Type} {m : Type → Type}

/-- An operand of a visit; `get` gives values or references. -/
structure Operand (m : Type → Type) (A : τ → Type) where
  typeIndex : SizeT
  get : (type : τ) → m (A type)

section Dispatch

variable [Monad m] [MonadExceptOf Failure m]

/-- `dispatcher`. -/
def dispatch (operand : Operand m A) (f : (type : τ) → A type → m R) (types : List τ) : m R :=
  atIndex operand.typeIndex (fun type => do f type (← operand.get type))
    (throw (.thrown "unary dispatch failed")) types

/-- `binary_dispatcher_rhs`: the left operand has been found. -/
def dispatchRhs (type : τ) (lhs : Operand m A) (rhs : Operand m B)
    (f : (left right : τ) → A left → B right → m R) (types : List τ) : m R :=
  atIndex rhs.typeIndex (fun other => do f type other (← lhs.get type) (← rhs.get other))
    (throw (.thrown "binary dispatch failed")) types

/-- `binary_dispatcher_lhs`: the right operand has been found. -/
def dispatchLhs (type : τ) (lhs : Operand m A) (rhs : Operand m B)
    (f : (left right : τ) → A left → B right → m R) (types : List τ) : m R :=
  atIndex lhs.typeIndex (fun other => do f other type (← lhs.get other) (← rhs.get type))
    (throw (.thrown "binary dispatch failed")) types

/-- `binary_dispatcher`. -/
def binaryDispatch (lhs : Operand m A) (rhs : Operand m B) (f : (left right : τ) → A left → B right → m R) :
    List τ → m R
  | [] => throw (.thrown "binary dispatch failed")
  | first :: rest =>
      if lhs.typeIndex = packSize rest then
        if lhs.typeIndex = rhs.typeIndex then do f first first (← lhs.get first) (← rhs.get first)
        else dispatchRhs first lhs rhs f rest
      else if rhs.typeIndex = packSize rest then dispatchLhs first lhs rhs f rest
      else binaryDispatch lhs rhs f rest

variable [DecidableEq τ]

/-- A reference to the value of a type in a variant: the value, and the variant
with another one. -/
abbrev Reference (types : Pack τ) (V : τ → Type) (type : τ) := V type × (V type → Variant types V)

/-- The stored object with another value. -/
def put (type : τ) (variant : Variant types V) (value : V type) : Variant types V :=
  { variant with data := variant.data.map fun object => ⟨object.serial, type, value⟩ }

def constOperand (variant : Variant types V) : Operand m V :=
  ⟨variant.typeIndex, fun type => variant.get type⟩

def operand (variant : Variant types V) : Operand m (Reference types V) :=
  ⟨variant.typeIndex, fun type => do return (← variant.get type, variant.put type)⟩

/-- `apply_visitor(f, v)` of a constant variant. -/
def visitConst (variant : Variant types V) (f : (type : τ) → V type → m R) : m R :=
  dispatch variant.constOperand f types.types

/-- `apply_visitor(f, v)`; the visitor returns its result and the value it leaves. -/
def visit (variant : Variant types V) (f : (type : τ) → V type → m (R × V type)) :
    m (R × Variant types V) :=
  dispatch variant.operand (fun type reference => do
    let (result, value) ← f type reference.1
    return (result, reference.2 value)) types.types

/-- `apply_visitor(f, v0, v1)` of constant variants. -/
def binaryVisitConst (v0 v1 : Variant types V) (f : (left right : τ) → V left → V right → m R) : m R :=
  binaryDispatch v0.constOperand v1.constOperand f types.types

/-- `apply_visitor(f, v0, v1)` of two variants. -/
def binaryVisit (v0 v1 : Variant types V)
    (f : (left right : τ) → V left → V right → m (R × V left × V right)) :
    m (R × Variant types V × Variant types V) :=
  binaryDispatch v0.operand v1.operand (fun left right reference0 reference1 => do
    let (result, value0, value1) ← f left right reference0.1 reference1.1
    return (result, reference0.2 value0, reference1.2 value1)) types.types

end Dispatch

/-! ## The operands and the alternative they hold -/

variable [Monad m] [LawfulMonad m] [MonadExceptOf Failure m]

/-- The operand holds the alternative before `after`. -/
structure Operand.At (operand : Operand m A) (types before : List τ) (type : τ) (after : List τ)
    (value : A type) : Prop where
  split : types = before ++ type :: after
  typeIndex : operand.typeIndex = packSize after
  get : operand.get type = pure value

/-- The visitor is called with what the operand holds. -/
theorem dispatch_at {operand : Operand m A} {types before after : List τ} {type : τ} {value : A type}
    (small : types.length < 2 ^ 31) (holds : operand.At types before type after value)
    (f : (type : τ) → A type → m R) : dispatch operand f types = f type value := by
  obtain ⟨rfl, typeIndex, get⟩ := holds
  rw [dispatch, typeIndex, atIndex_append small, get, pure_bind]

omit [LawfulMonad m] in
theorem dispatch_invalid {operand : Operand m A} {types : List τ} (small : types.length < 2 ^ 31)
    (invalid : operand.typeIndex = invalidTypeIndex) (f : (type : τ) → A type → m R) :
    dispatch operand f types = throw (.thrown "unary dispatch failed") := by
  rw [dispatch, invalid, atIndex_invalid small]

section Binary

variable {lhs : Operand m A} {rhs : Operand m B} {types : List τ}
  (small : types.length < 2 ^ 31) (f : (left right : τ) → A left → B right → m R)

include small

/-- For every pair of alternatives one of the three recursions calls the visitor. -/
theorem binaryDispatch_at {before before' after after' : List τ} {type other : τ} {value : A type}
    {value' : B other} (left : lhs.At types before type after value)
    (right : rhs.At types before' other after' value') :
    binaryDispatch lhs rhs f types = f type other value value' := by
  induction types generalizing before before' with
  | nil =>
      have split := left.split
      simp at split
  | cons first rest ih =>
      obtain ⟨split, index, get⟩ := left
      obtain ⟨split', index', get'⟩ := right
      rw [List.length_cons] at small
      rw [binaryDispatch, index, index']
      cases before with
      | nil =>
          rw [List.nil_append, List.cons.injEq] at split
          obtain ⟨rfl, rfl⟩ := split
          cases before' with
          | nil =>
              -- Both hold the first alternative.
              rw [List.nil_append, List.cons.injEq] at split'
              obtain ⟨rfl, rfl⟩ := split'
              rw [if_pos rfl, if_pos rfl, get, get', pure_bind, pure_bind]
          | cons _ before' =>
              -- The left one holds it, the right one a later alternative.
              rw [List.cons_append, List.cons.injEq] at split'
              obtain ⟨rfl, rfl⟩ := split'
              rw [if_pos rfl, if_neg (packSize_later (by omega)).symm, dispatchRhs, index',
                atIndex_append (by omega), get, get', pure_bind, pure_bind]
      | cons _ before =>
          rw [List.cons_append, List.cons.injEq] at split
          obtain ⟨rfl, rfl⟩ := split
          rw [if_neg (packSize_later (by omega))]
          cases before' with
          | nil =>
              rw [List.nil_append, List.cons.injEq] at split'
              obtain ⟨rfl, rfl⟩ := split'
              rw [if_pos rfl, dispatchLhs, index, atIndex_append (by omega), get, get', pure_bind, pure_bind]
          | cons _ before' =>
              rw [List.cons_append, List.cons.injEq] at split'
              obtain ⟨rfl, tail⟩ := split'
              have later' : packSize after' ≠ packSize (before ++ type :: after) := by
                rw [tail]
                exact packSize_later (by rw [← tail]; omega)
              rw [if_neg later']
              exact ih (by omega) ⟨rfl, index, get⟩ ⟨tail, index', get'⟩

omit [LawfulMonad m] in
/-- The right operand's alternative is looked for in vain. -/
theorem binaryDispatch_invalid_right (invalid : rhs.typeIndex = invalidTypeIndex) :
    binaryDispatch lhs rhs f types = throw (.thrown "binary dispatch failed") := by
  induction types with
  | nil => rfl
  | cons first rest ih =>
      rw [List.length_cons] at small
      have valid : packSize rest ≠ invalidTypeIndex := packSize_ne_invalid (by omega)
      rw [binaryDispatch, invalid, if_neg valid.symm, ih (by omega)]
      by_cases found : lhs.typeIndex = packSize rest
      · rw [if_pos found, found, if_neg valid, dispatchRhs, invalid, atIndex_invalid (by omega)]
      · rw [if_neg found]

omit [LawfulMonad m] in
theorem binaryDispatch_invalid_left (invalid : lhs.typeIndex = invalidTypeIndex) :
    binaryDispatch lhs rhs f types = throw (.thrown "binary dispatch failed") := by
  induction types with
  | nil => rfl
  | cons first rest ih =>
      rw [List.length_cons] at small
      have valid : packSize rest ≠ invalidTypeIndex := packSize_ne_invalid (by omega)
      rw [binaryDispatch, invalid, if_neg valid.symm, ih (by omega)]
      by_cases found : rhs.typeIndex = packSize rest
      · rw [if_pos found, dispatchLhs, invalid, atIndex_invalid (by omega)]
      · rw [if_neg found]

end Binary

end Snowlake.Variant
