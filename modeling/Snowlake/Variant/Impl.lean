import Mathlib.Algebra.Group.Nat.Defs
import Snowlake.Lib.Objects

/-! # Searches in type lists

`src/variant_impl.h`.  The templates recurse over the list of alternatives and
number an alternative by how many come after it.  A type is any element of `τ`,
and the objects of type `t` have the values `V t`.
-/

namespace Snowlake

open Objects

/-- `std::size_t`. -/
abbrev SizeT := UInt64

/-- `Types...` of a variant, fewer than the `int` of `which` can count. -/
structure Pack (τ : Type) where
  types : List τ
  small : types.length < 2 ^ 31

/-- `T` of a template parameter `T&&` or `T const&`, less the reference: a type of
`τ` or the variant itself. -/
inductive Deduced (τ : Type) where
  | value (isConst : Bool) (type : τ)
  | variant (isConst : Bool)
  deriving Repr, DecidableEq

inductive ValueCategory where
  | lvalue
  | rvalue
  deriving Repr, DecidableEq

/-- Implicit conversions into the alternatives, from other types and from the
variant itself, whose contents a conversion may look at.  An object of an
alternative, constant or not, can be copied. -/
structure Conversions (τ : Type) (V : τ → Type) where
  /-- `std::is_convertible<T, type>::value`. -/
  isConvertible : Deduced τ → τ → Bool
  /-- `target(std::forward<T>(val))`. -/
  convert : ValueCategory → Bool → (source target : τ) → V source → V target
  convertVariant : ValueCategory → Bool → Option ((type : τ) × V type) → (target : τ) → V target
  isConvertible_self : ∀ isConst type, isConvertible (.value isConst type) type = true
  convert_self : ∀ category isConst type value, convert category isConst type type value = value

namespace VariantImpl

variable {τ : Type} {V : τ → Type}

def invalidTypeIndex : SizeT := -1

/-- `sizeof...(Types)`. -/
def packSize (types : List τ) : SizeT := UInt64.ofNat types.length

/-- The recursion of the searches: the number of the first type that is `wanted`. -/
def firstIndex (wanted : τ → Bool) : List τ → SizeT
  | [] => invalidTypeIndex
  | first :: rest => if wanted first then packSize rest else firstIndex wanted rest

/-- The recursion of the helper and of the dispatchers: `act` on the type with
the number `id`, and at the end of the list `otherwise`. -/
def atIndex {β : Type} (id : SizeT) (act : τ → β) (otherwise : β) : List τ → β
  | [] => otherwise
  | first :: rest => if id = packSize rest then act first else atIndex id act otherwise rest

/-- `select_type`; its static assertion fails at the end of the list. -/
def selectType (n : SizeT) : List τ → Option τ
  | [] => none
  | first :: rest => if n = 0 then some first else selectType (n - 1) rest

section Search

variable [DecidableEq τ]

/-- `std::is_same<T, type>`, where `type` is an alternative and has no `const`. -/
def isSame : Deduced τ → τ → Bool
  | .value isConst type, other => !isConst && decide (type = other)
  | .variant _, _ => false

/-- `direct_type<T, Types...>::index`. -/
def directType (source : Deduced τ) (types : List τ) : SizeT := firstIndex (isSame source) types

/-- `convertible_type<T, Types...>::index`. -/
def convertibleType (conversions : Conversions τ V) (source : Deduced τ) (types : List τ) : SizeT :=
  firstIndex (conversions.isConvertible source) types

/-- `value_traits<T, Types...>::index`. -/
def valueTraits (conversions : Conversions τ V) (source : Deduced τ) (types : List τ) : SizeT :=
  let directIndex := directType source types
  if directIndex = invalidTypeIndex then convertibleType conversions source types else directIndex

/-- `is_valid_type<T, Types...>::value`. -/
def isValidType (conversions : Conversions τ V) (source : Deduced τ) : List τ → Bool
  | [] => false
  | first :: rest => conversions.isConvertible source first || isValidType conversions source rest

/-! ## `variant_helper` -/

def destroy (types : List τ) (id : SizeT) (data : Storage τ V) : Exec (Storage τ V) :=
  atIndex id (fun type => destruct type data) (pure data) types

/-- The object that was moved from is still an object. -/
def move (types : List τ) (oldId : SizeT) (oldValue newValue : Storage τ V) : Exec (Storage τ V) :=
  atIndex oldId (fun type => do construct type (← read type oldValue) newValue) (pure newValue) types

def copy (types : List τ) (oldId : SizeT) (oldValue newValue : Storage τ V) : Exec (Storage τ V) :=
  atIndex oldId (fun type => do construct type (← read type oldValue) newValue) (pure newValue) types

end Search

/-! ## Numbers from the back -/

theorem toNat_packSize {types : List τ} (small : types.length < 2 ^ 31) :
    (packSize types).toNat = types.length := by
  rw [packSize, UInt64.toNat_ofNat', Nat.mod_eq_of_lt (by omega)]

theorem packSize_inj {types other : List τ} (small : types.length < 2 ^ 31) (small' : other.length < 2 ^ 31) :
    packSize types = packSize other ↔ types.length = other.length := by
  rw [← UInt64.toNat_inj, toNat_packSize small, toNat_packSize small']

theorem packSize_ne_invalid {types : List τ} (small : types.length < 2 ^ 31) :
    packSize types ≠ invalidTypeIndex := by
  have invalid : invalidTypeIndex.toNat = 2 ^ 64 - 1 := by decide
  rw [Ne, ← UInt64.toNat_inj, toNat_packSize small, invalid]
  omega

/-- A later alternative has a smaller number. -/
theorem packSize_later {before after : List τ} {type : τ} (small : (before ++ type :: after).length < 2 ^ 31) :
    packSize after ≠ packSize (before ++ type :: after) := by
  have shorter : after.length < (before ++ type :: after).length := by
    rw [List.length_append, List.length_cons]
    omega
  rw [Ne, packSize_inj (by omega) small]
  omega

/-- A search finds the first type that is wanted, or there is none. -/
theorem firstIndex_cases (wanted : τ → Bool) (types : List τ) :
    ((∀ type ∈ types, wanted type = false) ∧ firstIndex wanted types = invalidTypeIndex) ∨
      ∃ before type after, types = before ++ type :: after ∧ wanted type = true ∧
        (∀ earlier ∈ before, wanted earlier = false) ∧ firstIndex wanted types = packSize after := by
  induction types with
  | nil => exact .inl ⟨by simp, rfl⟩
  | cons first rest ih =>
      cases found : wanted first with
      | true => exact .inr ⟨[], first, rest, rfl, found, by simp, by simp [firstIndex, found]⟩
      | false =>
          rcases ih with ⟨none, same⟩ | ⟨before, type, after, split, isWanted, earlier, same⟩
          · exact .inl ⟨by simpa [found] using none, by simp [firstIndex, found, same]⟩
          · refine .inr ⟨first :: before, type, after, by rw [split]; rfl, isWanted, ?_, ?_⟩
            · simpa [found] using earlier
            · simp [firstIndex, found, same]

theorem firstIndex_append {wanted : τ → Bool} {before after : List τ} {type : τ}
    (isWanted : wanted type = true) (earlier : ∀ other ∈ before, wanted other = false) :
    firstIndex wanted (before ++ type :: after) = packSize after := by
  induction before with
  | nil => simp [firstIndex, isWanted]
  | cons first before ih =>
      rw [List.forall_mem_cons] at earlier
      rw [List.cons_append, firstIndex, earlier.1, ih earlier.2]
      rfl

theorem firstIndex_eq_invalid_iff {wanted : τ → Bool} {types : List τ} (small : types.length < 2 ^ 31) :
    firstIndex wanted types = invalidTypeIndex ↔ ∀ type ∈ types, wanted type = false := by
  rcases firstIndex_cases wanted types with ⟨none, same⟩ | ⟨before, type, after, rfl, isWanted, -, same⟩
  · exact iff_of_true same none
  · rw [same]
    refine iff_of_false (packSize_ne_invalid ?_) ?_
    · rw [List.length_append, List.length_cons] at small
      omega
    · intro none
      have unwanted := none type (by simp)
      rw [isWanted] at unwanted
      cases unwanted

/-- The number of a type leads to it. -/
theorem atIndex_append {β : Type} {before after : List τ} {type : τ}
    (small : (before ++ type :: after).length < 2 ^ 31) (act : τ → β) (otherwise : β) :
    atIndex (packSize after) act otherwise (before ++ type :: after) = act type := by
  induction before with
  | nil => simp [atIndex]
  | cons first before ih =>
      rw [List.cons_append] at small ⊢
      rw [List.length_cons] at small
      rw [atIndex, if_neg (packSize_later (by omega)), ih (by omega)]

theorem atIndex_invalid {β : Type} {types : List τ} (small : types.length < 2 ^ 31) (act : τ → β)
    (otherwise : β) : atIndex invalidTypeIndex act otherwise types = otherwise := by
  induction types with
  | nil => rfl
  | cons first rest ih =>
      rw [List.length_cons] at small
      rw [atIndex, if_neg (packSize_ne_invalid (by omega)).symm, ih (by omega)]

/-- The number from the front. -/
theorem packSize_sub {before after : List τ} {type : τ} (small : (before ++ type :: after).length < 2 ^ 31) :
    packSize (before ++ type :: after) - packSize after - 1 = packSize before := by
  have whole := toNat_packSize small
  rw [List.length_append, List.length_cons] at small whole
  have one : UInt64.toNat 1 = 1 := by decide
  rw [← UInt64.toNat_inj, UInt64.toNat_sub, UInt64.toNat_sub, whole, toNat_packSize (by omega),
    toNat_packSize (by omega), one]
  omega

/-- Counted from the front it is the type that `select_type` selects. -/
theorem selectType_append {before after : List τ} {type : τ}
    (small : (before ++ type :: after).length < 2 ^ 31) :
    selectType (packSize before) (before ++ type :: after) = some type := by
  induction before with
  | nil => rfl
  | cons first before ih =>
      rw [List.cons_append, List.length_cons] at small
      have positive : packSize (first :: before) ≠ 0 := by
        rw [Ne, ← UInt64.toNat_inj, toNat_packSize (by simp at small ⊢; omega)]
        simp
      have less : packSize (first :: before) - 1 = packSize before := by
        simp [packSize]
      rw [List.cons_append, selectType, if_neg positive, less, ih (by omega)]

/-! ## What the searches find -/

/-- A search by number leads to what the search for the number found. -/
theorem atIndex_firstIndex {β : Type} (wanted : τ → Bool) {types : List τ} (small : types.length < 2 ^ 31)
    (act : τ → β) (otherwise : β) :
    atIndex (firstIndex wanted types) act otherwise types =
      (match types.find? wanted with
        | some type => act type
        | none => otherwise) := by
  rcases firstIndex_cases wanted types with ⟨none, same⟩ | ⟨before, type, after, rfl, isWanted, earlier, same⟩
  · have notFound : types.find? wanted = .none := List.find?_eq_none.mpr (by simpa using none)
    rw [same, atIndex_invalid small, notFound]
  · have found : (before ++ type :: after).find? wanted = some type :=
      List.find?_eq_some_iff_append.mpr ⟨isWanted, before, after, rfl, by simpa using earlier⟩
    rw [same, atIndex_append small, found]

theorem selectType_firstIndex {wanted : τ → Bool} {types : List τ} (small : types.length < 2 ^ 31)
    {type : τ} (found : types.find? wanted = some type) :
    selectType (packSize types - firstIndex wanted types - 1) types = some type := by
  obtain ⟨isWanted, before, after, rfl, earlier⟩ := List.find?_eq_some_iff_append.mp found
  rw [firstIndex_append isWanted (by simpa using earlier), packSize_sub small, selectType_append small]

theorem isValidType_iff_any (conversions : Conversions τ V) (source : Deduced τ) (types : List τ) :
    isValidType conversions source types = types.any (conversions.isConvertible source) := by
  induction types with
  | nil => rfl
  | cons first rest ih => rw [isValidType, ih, List.any_cons]

section Search

variable [DecidableEq τ] {types : Pack τ}

/-- The number of an alternative. -/
def indexOf (type : τ) (types : Pack τ) : SizeT := directType (.value false type) types.types

theorem find?_isSame_self {type : τ} (member : type ∈ types.types) :
    types.types.find? (isSame (.value false type)) = some type := by
  have isFound : (types.types.find? (isSame (.value false type))).isSome = true := by
    rw [List.find?_isSome]
    exact ⟨type, member, by simp [isSame]⟩
  obtain ⟨found, isFound⟩ := Option.isSome_iff_exists.mp isFound
  have same : type = found := by simpa [isSame] using List.find?_some isFound
  rw [isFound, same]

/-- The alternative that a search found is the first of its kind. -/
theorem firstIndex_of_find? {wanted : τ → Bool} {type : τ} (found : types.types.find? wanted = some type) :
    firstIndex wanted types.types = indexOf type types := by
  obtain ⟨isWanted, before, after, split, earlier⟩ := List.find?_eq_some_iff_append.mp found
  have unlike : ∀ other ∈ before, isSame (.value false type) other = false := by
    intro other member
    simp only [isSame, Bool.not_false, Bool.true_and, decide_eq_false_iff_not]
    intro same
    have unwanted := earlier other member
    rw [← same, isWanted] at unwanted
    cases unwanted
  rw [indexOf, directType, split, firstIndex_append isWanted (by simpa using earlier),
    firstIndex_append (by simp [isSame]) unlike]

theorem atIndex_indexOf {β : Type} {type : τ} (member : type ∈ types.types) (act : τ → β) (otherwise : β) :
    atIndex (indexOf type types) act otherwise types.types = act type := by
  rw [indexOf, directType, atIndex_firstIndex _ types.small, find?_isSame_self member]

/-- An alternative is counted where it first occurs. -/
theorem indexOf_split {type : τ} (member : type ∈ types.types) :
    ∃ before after, types.types = before ++ type :: after ∧ indexOf type types = packSize after := by
  obtain ⟨-, before, after, split, earlier⟩ := List.find?_eq_some_iff_append.mp (find?_isSame_self member)
  refine ⟨before, after, split, ?_⟩
  rw [indexOf, directType, split, firstIndex_append (by simp [isSame]) (by simpa using earlier)]

theorem indexOf_eq_invalid_iff {type : τ} :
    indexOf type types = invalidTypeIndex ↔ type ∉ types.types := by
  rw [indexOf, directType, firstIndex_eq_invalid_iff types.small]
  constructor
  · intro none member
    have unlike := none type member
    simp [isSame] at unlike
  · intro absent other member
    have unlike : type ≠ other := fun same => absent (same ▸ member)
    simp [isSame, unlike]

theorem indexOf_inj {type other : τ} (member : type ∈ types.types) (member' : other ∈ types.types) :
    indexOf type types = indexOf other types ↔ type = other := by
  constructor
  · intro same
    have leads := atIndex_indexOf member id type
    rw [same, atIndex_indexOf member' id type] at leads
    exact leads.symm
  · intro same
    rw [same]

/-- The alternative that the constructor template selects. -/
def selected (conversions : Conversions τ V) (source : Deduced τ) (types : Pack τ) : Option τ :=
  (types.types.find? (isSame source)).or (types.types.find? (conversions.isConvertible source))

theorem isConvertible_of_isSame (conversions : Conversions τ V) {source : Deduced τ} {type : τ}
    (same : isSame source type = true) : conversions.isConvertible source type = true := by
  cases source with
  | value isConst other =>
      simp only [isSame, Bool.and_eq_true, Bool.not_eq_true', decide_eq_true_eq] at same
      rw [same.2]
      exact conversions.isConvertible_self isConst type
  | variant isConst => cases same

theorem isValidType_iff (conversions : Conversions τ V) (source : Deduced τ) :
    isValidType conversions source types.types = true ↔
      ∃ type, selected conversions source types = some type := by
  rw [isValidType_iff_any, List.any_eq_true, ← Option.isSome_iff_exists, selected, Option.isSome_or,
    Bool.or_eq_true, List.find?_isSome, List.find?_isSome]
  constructor
  · intro convertible
    exact .inr convertible
  · intro found
    rcases found with ⟨type, member, same⟩ | convertible
    · exact ⟨type, member, isConvertible_of_isSame conversions same⟩
    · exact convertible

/-- The two searches agree with what the constructor template selects. -/
theorem valueTraits_of_selected {conversions : Conversions τ V} {source : Deduced τ} {type : τ}
    (found : selected conversions source types = some type) :
    type ∈ types.types ∧ conversions.isConvertible source type = true ∧
      valueTraits conversions source types.types = indexOf type types ∧
      selectType (packSize types.types - indexOf type types - 1) types.types = some type := by
  have bySearch (wanted : τ → Bool) (isFound : types.types.find? wanted = some type) :
      type ∈ types.types ∧ firstIndex wanted types.types = indexOf type types ∧
        selectType (packSize types.types - indexOf type types - 1) types.types = some type := by
    refine ⟨List.mem_of_find?_eq_some isFound, firstIndex_of_find? isFound, ?_⟩
    rw [← firstIndex_of_find? isFound]
    exact selectType_firstIndex types.small isFound
  rw [valueTraits, directType, convertibleType]
  cases direct : types.types.find? (isSame source) with
  | some other =>
      rw [selected, direct, Option.some_or, Option.some.injEq] at found
      subst found
      obtain ⟨member, index, selects⟩ := bySearch _ direct
      have valid : indexOf other types ≠ invalidTypeIndex := by
        rw [Ne, indexOf_eq_invalid_iff, not_not]
        exact member
      refine ⟨member, isConvertible_of_isSame conversions (List.find?_some direct), ?_, selects⟩
      rw [index]
      simp only [if_neg valid]
  | none =>
      rw [selected, direct, Option.none_or] at found
      obtain ⟨member, index, selects⟩ := bySearch _ found
      have invalid : firstIndex (isSame source) types.types = invalidTypeIndex := by
        rw [firstIndex_eq_invalid_iff types.small]
        simpa using List.find?_eq_none.mp direct
      refine ⟨member, List.find?_some found, ?_, selects⟩
      rw [invalid]
      simp only [if_true, index]

end Search

end VariantImpl

end Snowlake
