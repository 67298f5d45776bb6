import Mathlib.Data.List.AList
import Mathlib.Data.List.Forall2

/-! # Tables

Association lists whose order is the order of iteration.  `replace` keeps the
order, so a table is known from its keys and from what it has for each.
-/

abbrev Table (κ ν : Type) := AList fun _ : κ => ν

namespace Table

variable {κ ν : Type} [DecidableEq κ]

theorem lookup_replace {table : Table κ ν} {key : κ} (present : key ∈ table) (value : ν) :
    (table.replace key value).lookup key = some value := by
  obtain ⟨entries, nodup⟩ := table
  have inKeys : key ∈ entries.keys := present
  change (entries.kreplace key value).dlookup key = some value
  clear present nodup
  induction entries with
  | nil => cases inKeys
  | cons entry entries ih =>
      obtain ⟨other, old⟩ := entry
      rw [List.kreplace, List.lookmap_cons]
      by_cases same : key = other
      · subst same
        simp
      · have inRest : key ∈ entries.keys := by simpa [same] using inKeys
        simp only [same, if_false]
        rw [List.dlookup_cons_ne _ _ same]
        exact ih inRest

theorem lookup_replace_ne {key other : κ} (different : other ≠ key) (table : Table κ ν) (value : ν) :
    (table.replace key value).lookup other = table.lookup other := by
  obtain ⟨entries, nodup⟩ := table
  change (entries.kreplace key value).dlookup other = entries.dlookup other
  clear nodup
  induction entries with
  | nil => rfl
  | cons entry entries ih =>
      obtain ⟨first, old⟩ := entry
      rw [List.kreplace, List.lookmap_cons]
      by_cases same : key = first
      · subst same
        simp only [if_true]
        rw [List.dlookup_cons_ne _ _ different, List.dlookup_cons_ne _ _ different]
      · simp only [same, if_false]
        by_cases here : other = first
        · subst here
          rw [List.dlookup_cons_eq, List.dlookup_cons_eq]
        · rw [List.dlookup_cons_ne _ _ here, List.dlookup_cons_ne _ _ here]
          exact ih

/-- The keys in their order, and what the table has for each, are all of it. -/
theorem ext_lookup {left right : Table κ ν} (keys : left.keys = right.keys)
    (same : ∀ key, left.lookup key = right.lookup key) : left = right := by
  obtain ⟨leftEntries, leftNodup⟩ := left
  obtain ⟨rightEntries, rightNodup⟩ := right
  refine AList.ext ?_
  change leftEntries = rightEntries
  replace keys : leftEntries.keys = rightEntries.keys := keys
  replace same : ∀ key, leftEntries.dlookup key = rightEntries.dlookup key := same
  induction leftEntries generalizing rightEntries with
  | nil => exact (List.map_eq_nil_iff.mp keys.symm).symm
  | cons entry leftEntries ih =>
      cases rightEntries with
      | nil => cases keys
      | cons other rightEntries =>
          obtain ⟨key, leftValue⟩ := entry
          obtain ⟨otherKey, rightValue⟩ := other
          obtain ⟨rfl, restKeys⟩ := List.cons.inj keys
          have here := same key
          rw [List.dlookup_cons_eq, List.dlookup_cons_eq] at here
          obtain rfl := Option.some.inj here
          rw [List.nodupKeys_cons] at leftNodup rightNodup
          refine congrArg _ (ih leftNodup.2 _ rightNodup.2 restKeys fun other => ?_)
          by_cases isKey : other = key
          · subst isKey
            rw [List.dlookup_eq_none.mpr leftNodup.1, List.dlookup_eq_none.mpr rightNodup.1]
          · have there := same other
            rwa [List.dlookup_cons_ne _ _ isKey, List.dlookup_cons_ne _ _ isKey] at there

theorem lookup_of_mem {table : Table κ ν} {entry : Sigma fun _ : κ => ν} (member : entry ∈ table.entries) :
    table.lookup entry.1 = some entry.2 :=
  AList.mem_lookup_iff.mpr member

/-- A table is one of its entries and the rest. -/
theorem entries_perm_erase {table : Table κ ν} {key : κ} {value : ν} (found : table.lookup key = some value) :
    table.entries.Perm (⟨key, value⟩ :: (table.erase key).entries) := by
  have member : (⟨key, value⟩ : Sigma fun _ : κ => ν) ∈ table.entries := AList.mem_lookup_iff.mp found
  obtain ⟨other, before, after, absent, split, erased⟩ :=
    List.exists_of_kerase (List.mem_keys_of_mem member)
  have same : table.lookup key = some other := by
    refine @lookup_of_mem κ ν _ table ⟨key, other⟩ ?_
    rw [split]
    simp
  obtain rfl := Option.some.inj (found.symm.trans same)
  change table.entries.Perm (⟨key, value⟩ :: table.entries.kerase key)
  rw [erased, split]
  exact List.perm_middle

/-- What is collected from the values in their order. -/
theorem filterMap_entries {μ : Type} (table : Table κ ν) (f : ν → Option μ) :
    table.entries.filterMap (fun entry => f entry.2) =
      table.keys.filterMap fun key => (table.lookup key).bind f := by
  rw [AList.keys, List.keys, List.filterMap_map]
  refine List.filterMap_congr fun entry member => ?_
  rw [Function.comp, lookup_of_mem member]
  rfl

section Inverse

variable {ω : Type} {forward : Table κ ν} {backward : Table ν ω} {owner : ω → κ}

/-- The values of a table. -/
def names (table : Table κ ν) : List ν := table.entries.map (·.2)

theorem mem_names_iff {name : ν} : name ∈ forward.names ↔ ∃ key, forward.lookup key = some name := by
  constructor
  · intro member
    obtain ⟨entry, inTable, rfl⟩ := List.mem_map.mp member
    exact ⟨entry.1, lookup_of_mem inTable⟩
  · rintro ⟨key, found⟩
    exact List.mem_map.mpr ⟨⟨key, name⟩, AList.mem_lookup_iff.mp found, rfl⟩

theorem mem_keys_iff [DecidableEq ν] {name : ν} :
    name ∈ backward.keys ↔ ∃ value, backward.lookup name = some value := by
  rw [← AList.mem_keys, ← AList.lookup_isSome, Option.isSome_iff_exists]

section LeadsBack

variable [DecidableEq ν] (leadsBack : ∀ key name, forward.lookup key = some name →
  ∃ value, backward.lookup name = some value ∧ owner value = key)

include leadsBack

/-- An entry is known from its name, since the name's value knows the key. -/
theorem names_nodup : forward.names.Nodup := by
  refine List.Nodup.map_on ?_ (List.Nodup.of_map _ forward.nodupKeys)
  intro entry member other otherMember same
  obtain ⟨value, found, owns⟩ := leadsBack entry.1 entry.2 (lookup_of_mem member)
  obtain ⟨otherValue, otherFound, otherOwns⟩ := leadsBack other.1 other.2 (lookup_of_mem otherMember)
  have keys : entry.1 = other.1 := by
    rw [same, otherFound] at found
    rw [← owns, ← otherOwns, Option.some.inj found]
  exact Sigma.ext keys (heq_of_eq same)

theorem names_subset : forward.names ⊆ backward.keys := by
  intro name member
  obtain ⟨key, found⟩ := mem_names_iff.mp member
  obtain ⟨value, known, _⟩ := leadsBack key name found
  exact mem_keys_iff.mpr ⟨value, known⟩

end LeadsBack

/-- Two tables of one size, one of which leads back through the other, are
inverse to each other: no entry is left over on either side. -/
theorem inverse_iff [DecidableEq ν] (forward : Table κ ν) (backward : Table ν ω) (owner : ω → κ) :
    (forward.entries.length = backward.entries.length ∧
        ∀ key name, forward.lookup key = some name →
          ∃ value, backward.lookup name = some value ∧ owner value = key) ↔
      (∀ name value, backward.lookup name = some value → forward.lookup (owner value) = some name) ∧
        ∀ key name, forward.lookup key = some name →
          ∃ value, backward.lookup name = some value ∧ owner value = key := by
  refine and_congr_left fun leadsBack => ?_
  have within : forward.names.Subperm backward.keys :=
    List.subperm_of_subset (names_nodup leadsBack) (names_subset leadsBack)
  have sizes : forward.entries.length = forward.names.length ∧
      backward.entries.length = backward.keys.length :=
    ⟨(List.length_map _).symm, (List.length_map _).symm⟩
  rw [sizes.1, sizes.2]
  constructor
  · intro sameLength name value found
    have perm := within.perm_of_length_le (Nat.le_of_eq sameLength.symm)
    obtain ⟨key, entry⟩ := mem_names_iff.mp (perm.mem_iff.mpr (mem_keys_iff.mpr ⟨value, found⟩))
    obtain ⟨other, otherFound, rfl⟩ := leadsBack key name entry
    obtain rfl := Option.some.inj (found.symm.trans otherFound)
    exact entry
  · intro inverse
    have within' : backward.keys ⊆ forward.names := by
      intro name known
      obtain ⟨value, found⟩ := mem_keys_iff.mp known
      exact mem_names_iff.mpr ⟨owner value, inverse name value found⟩
    exact (within.antisymm (List.subperm_of_subset backward.keys_nodup within')).length_eq

end Inverse

/-! ## Related tables -/

section Related

variable {ω : Type} {rel : ν → ω → Prop}

/-- The same keys in the same order, and related values. -/
def Related (rel : ν → ω → Prop) (left : Table κ ν) (right : Table κ ω) : Prop :=
  List.Forall₂ (fun entry other => entry.1 = other.1 ∧ rel entry.2 other.2) left.entries right.entries

omit [DecidableEq κ] in
theorem related_empty : Related rel (∅ : Table κ ν) ∅ := .nil

namespace Related

variable {left : Table κ ν} {right : Table κ ω}

theorem lookup (related : Related rel left right) (key : κ) :
    Option.Rel rel (left.lookup key) (right.lookup key) := by
  obtain ⟨entries, nodup⟩ := left
  obtain ⟨others, nodup'⟩ := right
  change Option.Rel rel (entries.dlookup key) (others.dlookup key)
  change List.Forall₂ _ entries others at related
  clear nodup nodup'
  induction related with
  | nil => exact .none
  | @cons entry other entries others here _ ih =>
      obtain ⟨name, value⟩ := entry
      obtain ⟨name', value'⟩ := other
      obtain ⟨rfl, valueRelated⟩ := here
      by_cases same : key = name
      · subst same
        rw [List.dlookup_cons_eq, List.dlookup_cons_eq]
        exact .some valueRelated
      · rw [List.dlookup_cons_ne _ _ same, List.dlookup_cons_ne _ _ same]
        exact ih

theorem mem_iff (related : Related rel left right) (key : κ) : key ∈ left ↔ key ∈ right := by
  rw [← AList.lookup_isSome, ← AList.lookup_isSome]
  have values := related.lookup key
  generalize left.lookup key = found at values ⊢
  generalize right.lookup key = other at values ⊢
  cases values with
  | none => rfl
  | some _ => rfl

theorem erase (related : Related rel left right) (key : κ) :
    Related rel (left.erase key) (right.erase key) := by
  obtain ⟨entries, nodup⟩ := left
  obtain ⟨others, nodup'⟩ := right
  change List.Forall₂ _ (entries.kerase key) (others.kerase key)
  change List.Forall₂ _ entries others at related
  clear nodup nodup'
  induction related with
  | nil => exact .nil
  | @cons entry other entries others here rest ih =>
      by_cases same : key = entry.1
      · rw [List.kerase_cons_eq same, List.kerase_cons_eq (same.trans here.1)]
        exact rest
      · rw [List.kerase_cons_ne same, List.kerase_cons_ne (here.1 ▸ same)]
        exact .cons here ih

theorem insert (related : Related rel left right) (key : κ) {value : ν} {other : ω}
    (valueRelated : rel value other) : Related rel (left.insert key value) (right.insert key other) :=
  .cons ⟨rfl, valueRelated⟩ (related.erase key)

theorem replace (related : Related rel left right) (key : κ) {value : ν} {other : ω}
    (valueRelated : rel value other) : Related rel (left.replace key value) (right.replace key other) := by
  obtain ⟨entries, nodup⟩ := left
  obtain ⟨others, nodup'⟩ := right
  change List.Forall₂ _ (entries.kreplace key value) (others.kreplace key other)
  change List.Forall₂ _ entries others at related
  clear nodup nodup'
  induction related with
  | nil => exact .nil
  | @cons entry otherEntry entries others here rest ih =>
      rw [List.kreplace, List.kreplace, List.lookmap_cons, List.lookmap_cons]
      by_cases same : key = entry.1
      · simp only [same, here.1, if_true]
        exact .cons ⟨rfl, valueRelated⟩ rest
      · simp only [same, here.1 ▸ same, if_false]
        exact .cons here ih

/-- Another value that is related as well. -/
theorem replace_left (related : Related rel left right) {key : κ} {value : ν} {other : ω}
    (found : right.lookup key = some other) (valueRelated : rel value other) :
    Related rel (left.replace key value) right := by
  obtain ⟨entries, nodup⟩ := left
  obtain ⟨others, nodup'⟩ := right
  change List.Forall₂ _ (entries.kreplace key value) others
  change others.dlookup key = some other at found
  change List.Forall₂ _ entries others at related
  clear nodup nodup'
  induction related with
  | nil => exact .nil
  | @cons entry otherEntry entries others here rest ih =>
      rw [List.kreplace, List.lookmap_cons]
      by_cases same : key = entry.1
      · obtain ⟨name, stored⟩ := otherEntry
        obtain rfl : key = name := same.trans here.1
        rw [List.dlookup_cons_eq] at found
        obtain rfl := Option.some.inj found
        simp only [same, if_true]
        exact .cons ⟨rfl, valueRelated⟩ rest
      · rw [List.dlookup_cons_ne _ _ (here.1 ▸ same)] at found
        simp only [same, if_false]
        exact .cons here (ih found)

omit [DecidableEq κ] in
theorem mono (related : Related rel left right) {other : ν → ω → Prop}
    (weaker : ∀ value value', rel value value' → other value value') : Related other left right :=
  List.Forall₂.imp (fun _ _ here => ⟨here.1, weaker _ _ here.2⟩) related

end Related

end Related

end Table
