import Mathlib.Data.List.Basic
import Mathlib.Data.List.Induction
import Mathlib.Logic.Function.Basic

/-! # Stores and writes

A store assigns a value to every key, and a list of writes changes it from left
to right.  A key that no write names keeps its value; a key that one write names
has that write's value; of two writes to one key the later one remains.
-/

namespace Writes

variable {κ ν : Type} [DecidableEq κ]

def writeAll (store : κ → ν) : List (κ × ν) → κ → ν
  | [] => store
  | write :: rest => writeAll (Function.update store write.1 write.2) rest

@[simp] theorem writeAll_nil (store : κ → ν) : writeAll store [] = store := rfl

theorem writeAll_append (store : κ → ν) (first second : List (κ × ν)) :
    writeAll store (first ++ second) = writeAll (writeAll store first) second := by
  induction first generalizing store with
  | nil => rfl
  | cons write rest ih => exact ih _

theorem writeAll_of_notMem {writes : List (κ × ν)} {key : κ} (absent : key ∉ writes.map (·.1))
    (store : κ → ν) : writeAll store writes key = store key := by
  induction writes generalizing store with
  | nil => rfl
  | cons write rest ih =>
      rw [List.map_cons, List.mem_cons, not_or] at absent
      rw [writeAll, ih absent.2, Function.update_of_ne absent.1]

/-- A write remains that no later one overwrites. -/
theorem writeAll_cons {rest : List (κ × ν)} {key : κ} (last : key ∉ rest.map (·.1)) (value : ν)
    (store : κ → ν) : writeAll store ((key, value) :: rest) key = value := by
  rw [writeAll, writeAll_of_notMem last, Function.update_self]

theorem writeAll_split {before after : List (κ × ν)} {key : κ} {value : ν}
    (last : key ∉ after.map (·.1)) (store : κ → ν) :
    writeAll store (before ++ (key, value) :: after) key = value := by
  rw [writeAll_append, writeAll_cons last]

/-- Writes to distinct keys all remain. -/
theorem writeAll_of_mem {writes : List (κ × ν)} (distinct : (writes.map (·.1)).Nodup) {key : κ}
    {value : ν} (member : (key, value) ∈ writes) (store : κ → ν) :
    writeAll store writes key = value := by
  obtain ⟨before, after, rfl⟩ := List.append_of_mem member
  rw [List.map_append, List.map_cons, List.nodup_append, List.nodup_cons] at distinct
  exact writeAll_split distinct.2.1.1 store

theorem writeAll_congr {writes : List (κ × ν)} {key : κ} (written : key ∈ writes.map (·.1))
    (store other : κ → ν) : writeAll store writes key = writeAll other writes key := by
  induction writes generalizing store other with
  | nil => cases written
  | cons write rest ih =>
      by_cases later : key ∈ rest.map (·.1)
      · exact ih later _ _
      · obtain rfl : key = write.1 := by simpa [later] using written
        rw [writeAll, writeAll, writeAll_of_notMem later, writeAll_of_notMem later, Function.update_self,
          Function.update_self]

/-- Writes that are made again change nothing. -/
theorem writeAll_again (writes : List (κ × ν)) (store : κ → ν) :
    writeAll (writeAll store writes) writes = writeAll store writes := by
  funext key
  by_cases written : key ∈ writes.map (·.1)
  · exact writeAll_congr written _ _
  · exact writeAll_of_notMem written _

/-- What is seen of the values of a store is written like the values themselves. -/
theorem writeAll_map {μ : Type} (view : ν → μ) (writes : List (κ × ν)) (store : κ → ν) :
    view ∘ writeAll store writes =
      writeAll (view ∘ store) (writes.map fun write => (write.1, view write.2)) := by
  induction writes generalizing store with
  | nil => rfl
  | cons write rest ih => rw [writeAll, ih, Function.comp_update, List.map_cons, writeAll]

/-- The value of a key that is written to comes from one of the writes. -/
theorem writeAll_mem {writes : List (κ × ν)} {key : κ} (written : key ∈ writes.map (·.1)) (store : κ → ν) :
    (key, writeAll store writes key) ∈ writes := by
  induction writes generalizing store with
  | nil => cases written
  | cons write rest ih =>
      by_cases later : key ∈ rest.map (·.1)
      · exact List.mem_cons_of_mem _ (ih later _)
      · obtain rfl : key = write.1 := by simpa [later] using written
        rw [writeAll, writeAll_of_notMem later, Function.update_self]
        exact List.mem_cons_self

/-- The last of the writers to a key determines its value. -/
theorem writeAll_filterMap {ι : Type} (writers : List ι) (write : ι → Option (κ × ν)) (key : κ)
    (store : κ → ν) :
    writeAll store (writers.filterMap write) key =
      (((writers.filter fun writer => (write writer).map (·.1) = some key).getLast?.bind write).map
        (·.2)).getD (store key) := by
  induction writers using List.reverseRecOn with
  | nil => rfl
  | append_singleton writers last ih =>
      rw [List.filterMap_append, writeAll_append, List.filter_append]
      cases written : write last with
      | none => simp [written, ih]
      | some pair =>
          obtain ⟨other, value⟩ := pair
          by_cases same : other = key
          · simp [written, same, writeAll]
          · simp [written, same, writeAll, Ne.symm same, ih]

end Writes
