import Mathlib.Data.List.Induction
import Mathlib.Data.List.Infix
import Snowlake.Variant.Worlds

/-! # The lifetimes of the stored objects

A move leaves the object it moved from alive in storage that no longer owns it,
and a swap constructs copies over live objects.  What is lost that way is never
destroyed.
-/

namespace Snowlake.Variant

open Objects VariantImpl Ledger

variable {τ : Type} {V : τ → Type} {types : Pack τ}

/-- The object a variant owns. -/
def held (variant : Variant types V) : List Nat :=
  if variant.valid then variant.data.toList.map (·.serial) else []

/-- An object in the storage of an empty variant. -/
def stale (variant : Variant types V) : List Nat :=
  if variant.valid then [] else variant.data.toList.map (·.serial)

theorem valid_vacant (data : Storage τ V) : (vacant data : Variant types V).valid = false := by
  simp [valid, vacant]

theorem held_vacant (data : Storage τ V) : (vacant data : Variant types V).held = [] := by
  simp [held, valid_vacant]

theorem stale_vacant (data : Storage τ V) :
    (vacant data : Variant types V).stale = data.toList.map (·.serial) := by
  rw [stale, valid_vacant]
  rfl

variable [DecidableEq τ]

/-- A sound variant with nothing in its storage but what is its own or lost. -/
structure Tracked (lost : List Nat) (variant : Variant types V) : Prop where
  sound : variant.Sound
  stale : variant.stale ⊆ lost

section Tracked

variable {lost rest : List Nat} {ledger : Ledger}

theorem held_full {type : τ} (member : type ∈ types.types) (serial : Nat) (value : V type) :
    (full type serial value : Variant types V).held = [serial] := by
  rw [held, if_pos (valid_full member serial value)]
  rfl

theorem tracked_full {type : τ} (member : type ∈ types.types) (serial : Nat) (value : V type) :
    Tracked lost (full type serial value : Variant types V) := by
  refine ⟨.full member serial value, ?_⟩
  rw [stale, if_pos (valid_full member serial value)]
  exact List.nil_subset _

theorem tracked_vacant {data : Storage τ V} (isLost : ∀ object ∈ data, object.serial ∈ lost) :
    Tracked lost (vacant data : Variant types V) := by
  refine ⟨.vacant data, ?_⟩
  rw [stale_vacant]
  intro serial member
  obtain ⟨object, inside, rfl⟩ := List.mem_map.mp member
  exact isLost object (Option.mem_toList.mp inside)

theorem Tracked.lost_of_vacant {data : Storage τ V} (tracked : Tracked lost (vacant data : Variant types V)) :
    ∀ object ∈ data, object.serial ∈ lost := by
  intro object inside
  apply tracked.stale
  rw [stale_vacant]
  exact List.mem_map.mpr ⟨object, Option.mem_toList.mpr inside, rfl⟩

theorem Tracked.mono {variant : Variant types V} (tracked : Tracked lost variant) {lost' : List Nat}
    (more : lost ⊆ lost') : Tracked lost' variant :=
  ⟨tracked.sound, List.Subset.trans tracked.stale more⟩

/-! ## Moves and swaps -/

variable (conversions : Conversions τ V)

/-- What is left when a variant was made of another: the two of them, and more
objects that are lost. -/
structure MadeFrom (category : ValueCategory) (isConst : Bool) (other : Variant types V) (rest lost : List Nat)
    (new other' : Variant types V) (lost' : List Nat) (after : Ledger) : Prop where
  accounts : Accounts (new.held ++ (other'.held ++ rest)) (lost' ++ lost) after
  tracked : Tracked (lost' ++ lost) new
  tracked' : Tracked (lost' ++ lost) other'
  loses : lost' = [] ↔ ¬ (moves category isConst ∧ other.valid = true)
  valid : new.valid = true ↔ other.valid = true ∨ takesTemplate conversions types category isConst = true
  keeps : other'.valid = true → other.valid = true

section MadeFrom

variable {conversions} {category : ValueCategory} {isConst : Bool} {other : Variant types V}

theorem ofVariantForwarded_accounts (takes : takesTemplate conversions types category isConst = true)
    (tracked : Tracked lost other) (accounts : Accounts (other.held ++ rest) lost ledger) :
    ∃ new after, ofVariant conversions category isConst other ledger = .ok ((new, other), after) ∧
      MadeFrom conversions category isConst other rest lost new other [] after := by
  obtain ⟨type, member, -, made⟩ := ofVariant_takes ledger takes other
  have notMoved := not_moves_of_takes takes
  refine ⟨_, _, made, ?_⟩
  constructor
  case accounts =>
    rw [held_full member]
    exact accounts.construct (none : Storage τ V) (by simp)
  case tracked => exact tracked_full member _ _
  case tracked' => exact tracked
  case loses => simp [notMoved]
  case valid => simp [valid_full member, takes]
  case keeps => exact id

/-- The object that is moved from is lost. -/
theorem moveOf_accounts (isMove : moves category isConst)
    (tracked : Tracked lost other) (accounts : Accounts (other.held ++ rest) lost ledger) :
    ∃ new other' lost' after, ofVariant conversions category isConst other ledger = .ok ((new, other'), after) ∧
      MadeFrom conversions category isConst other rest lost new other' lost' after := by
  have takesNone : takesTemplate conversions types category isConst = false := by
    rw [Bool.eq_false_iff]
    intro takes
    exact not_moves_of_takes takes isMove
  rw [ofVariant_moves conversions isMove]
  obtain ⟨sound, stale⟩ := tracked
  cases sound with
  | @full type member serial value =>
      rw [held_full member] at accounts
      refine ⟨_, _, [serial], _, moveOf_full member serial value ledger, ?_⟩
      constructor
      case accounts =>
        rw [held_full member, held_vacant]
        exact accounts.lose.construct (none : Storage τ V) (by simp)
      case tracked => exact tracked_full member _ _
      case tracked' => exact tracked_vacant (by simp)
      case loses => simp [isMove, valid_full member]
      case valid => simp [valid_full member]
      case keeps => simp [valid_full member]
  | vacant data =>
      rw [held_vacant] at accounts
      refine ⟨_, _, [], _, moveOf_vacant data ledger, ?_⟩
      constructor
      case accounts =>
        rw [held_vacant, held_vacant]
        exact accounts
      case tracked => exact tracked_vacant (by simp)
      case tracked' => exact ⟨.vacant data, stale⟩
      case loses => simp [valid_vacant]
      case valid => simp [valid_vacant, takesNone]
      case keeps => simp [valid_vacant]

theorem copyOf_accounts (takesNone : takesTemplate conversions types category isConst = false)
    (notMoved : ¬ moves category isConst) (tracked : Tracked lost other)
    (accounts : Accounts (other.held ++ rest) lost ledger) :
    ∃ new after, ofVariant conversions category isConst other ledger = .ok ((new, other), after) ∧
      MadeFrom conversions category isConst other rest lost new other [] after := by
  have sound := tracked.sound
  cases sound with
  | @full type member serial value =>
      have copied := ofVariant_copies takesNone notMoved (copyOf_full member serial value ledger)
      refine ⟨_, _, copied, ?_⟩
      constructor
      case accounts =>
        rw [held_full member]
        exact accounts.construct (none : Storage τ V) (by simp)
      case tracked => exact tracked_full member _ _
      case tracked' => exact tracked
      case loses => simp [notMoved]
      case valid => simp [valid_full member]
      case keeps => exact id
  | vacant data =>
      have copied := ofVariant_copies takesNone notMoved (copyOf_vacant data ledger)
      refine ⟨_, _, copied, ?_⟩
      constructor
      case accounts =>
        rw [held_vacant]
        exact accounts
      case tracked => exact tracked_vacant (by simp)
      case tracked' => exact tracked
      case loses => simp [notMoved]
      case valid => simp [valid_vacant, takesNone]
      case keeps => exact id

end MadeFrom

/-- Whatever constructor a variant selects, the books are kept. -/
theorem ofVariant_accounts {other : Variant types V} (tracked : Tracked lost other)
    (accounts : Accounts (other.held ++ rest) lost ledger) (category : ValueCategory) (isConst : Bool) :
    ∃ new other' lost' after, ofVariant conversions category isConst other ledger = .ok ((new, other'), after) ∧
      MadeFrom conversions category isConst other rest lost new other' lost' after := by
  cases takes : takesTemplate conversions types category isConst with
  | true =>
      obtain ⟨new, after, made, leaves⟩ := ofVariantForwarded_accounts takes tracked accounts
      exact ⟨new, other, [], after, made, leaves⟩
  | false =>
      by_cases isMove : moves category isConst
      · exact moveOf_accounts isMove tracked accounts
      · obtain ⟨new, after, made, leaves⟩ := copyOf_accounts takes isMove tracked accounts
        exact ⟨new, other, [], after, made, leaves⟩

/-- Swapping loses every object involved, but for the copy that is kept. -/
theorem swapIn_accounts {variant temp : Variant types V} (tracked : Tracked lost variant)
    (tracked' : Tracked lost temp) (accounts : Accounts (temp.held ++ (variant.held ++ rest)) lost ledger) :
    ∃ new lost' after, swapIn variant temp ledger = .ok (new, after) ∧
      Accounts (new.held ++ rest) (lost' ++ lost) after ∧ Tracked (lost' ++ lost) new ∧
      (lost' = [] ↔ variant.valid = false ∧ temp.valid = false) := by
  obtain ⟨sound, stale⟩ := tracked
  obtain ⟨sound', stale'⟩ := tracked'
  cases sound with
  | @full type member serial value =>
      have isValid := valid_full member serial value
      rw [held_full member] at accounts
      cases sound' with
      | @full other member' serial' value' =>
          rw [held_full member'] at accounts
          -- The objects of both operands and the one in `tmpData` are lost.
          have lost' := (accounts.lose.lose.construct (none : Storage τ V) (by simp)).lose
          have copied := lost'.construct (some ⟨serial', other, value'⟩) (by simp)
          have kept := copied.construct (some ⟨serial, type, value⟩) (by simp)
          have swapped := (kept.of_perm (.swap _ _ _)).destroy
          refine ⟨_, [ledger.constructed, serial, serial'], _,
            swapIn_full_full serial serial' value value' ledger member member', ?_,
            tracked_full member' _ _, ?_⟩
          · rw [held_full member']
            exact swapped
          · simp [isValid]
      | vacant data =>
          rw [held_vacant] at accounts
          have free := Tracked.lost_of_vacant ⟨.vacant data, stale'⟩
          have copied := accounts.lose.construct data fun object inside =>
            List.mem_cons_of_mem _ (free object inside)
          refine ⟨_, [serial], _, swapIn_full_vacant serial value data ledger member, ?_, ?_, ?_⟩
          · rw [held_vacant]
            exact copied.destroy
          · exact tracked_vacant (by simp)
          · simp [isValid]
  | vacant data =>
      have free := Tracked.lost_of_vacant ⟨.vacant data, stale⟩
      rw [held_vacant] at accounts
      cases sound' with
      | @full other member' serial' value' =>
          have isValid := valid_full member' serial' value'
          rw [held_full member'] at accounts
          have lost' := (accounts.lose.construct (none : Storage τ V) (by simp)).lose
          have kept := lost'.construct data fun object inside => by simp [free object inside]
          refine ⟨_, [ledger.constructed, serial'], _, swapIn_vacant_full serial' value' data ledger member', ?_,
            tracked_full member' _ _, ?_⟩
          · rw [held_full member']
            exact kept
          · simp [isValid]
      | vacant data' =>
          rw [held_vacant] at accounts
          refine ⟨_, [], _, swapIn_vacant_vacant data data' ledger, ?_, ⟨.vacant data, stale⟩, ?_⟩
          · rw [held_vacant]
            exact accounts
          · simp [valid_vacant]

variable (types) in
/-- A variant made of a value holds a new object. -/
theorem ofValue_accounts (accounts : Accounts rest lost ledger) (argument : Argument τ V) :
    (ofValue conversions argument ledger : Except Failure (Variant types V × Ledger)) = .error .illFormed ∨
      ∃ (new : Variant types V) (after : Ledger), ofValue conversions argument ledger = .ok (new, after) ∧
        Accounts (new.held ++ rest) lost after ∧ Tracked lost new ∧ new.valid = true := by
  rw [ofValue, ofForwarded_eq]
  cases found : selected conversions argument.deduced types with
  | none => exact .inl rfl
  | some type =>
      have member := (valueTraits_of_selected found).1
      refine .inr ⟨_, _, rfl, ?_, tracked_full member _ _, valid_full member _ _⟩
      rw [held_full member]
      exact accounts.construct (none : Storage τ V) (by simp)

theorem destroyed_accounts {variant : Variant types V} (tracked : Tracked lost variant)
    (accounts : Accounts (variant.held ++ rest) lost ledger) :
    ∃ after, variant.destroyed ledger = .ok ((), after) ∧ Accounts rest lost after := by
  obtain ⟨sound, stale⟩ := tracked
  cases sound with
  | @full type member serial value =>
      rw [held_full member] at accounts
      exact ⟨_, destroyed_full member serial value ledger, accounts.destroy⟩
  | vacant data =>
      rw [held_vacant] at accounts
      exact ⟨_, destroyed_vacant data ledger, accounts⟩

end Tracked

/-! ## Programs -/

namespace World

omit [DecidableEq τ] in
/-- The objects that the variables own. -/
def held (world : World types V) : List Nat := world.entries.flatMap fun entry => entry.2.held

omit [DecidableEq τ] in
theorem held_erase {world : World types V} {name : Nat} {variant : Variant types V}
    (found : world.lookup name = some variant) :
    world.held.Perm (variant.held ++ World.held (world.erase name)) :=
  (Table.entries_perm_erase found).flatMap_right _

omit [DecidableEq τ] in
theorem held_insert_new {world : World types V} {name : Nat} (absent : name ∉ world)
    (variant : Variant types V) :
    World.held (world.insert name variant) = variant.held ++ world.held := by
  rw [held, AList.entries_insert_of_notMem absent, List.flatMap_cons]
  rfl

/-- All variables are tracked. -/
def Tracked (lost : List Nat) (world : World types V) : Prop :=
  ∀ name variant, world.lookup name = some variant → variant.Tracked lost

theorem Tracked.insert {lost all : List Nat} {world : World types V} (tracked : Tracked lost world)
    (more : lost ⊆ all) {variant : Variant types V} (isTracked : variant.Tracked all) (name : Nat) :
    Tracked all (world.insert name variant) := by
  intro other found isFound
  by_cases same : other = name
  · subst same
    rw [AList.lookup_insert] at isFound
    obtain rfl := Option.some.inj isFound
    exact isTracked
  · rw [AList.lookup_insert_ne same] at isFound
    exact (tracked other found isFound).mono more

theorem Tracked.erase {lost : List Nat} {world : World types V} (tracked : Tracked lost world) (name : Nat) :
    Tracked lost (world.erase name) := by
  intro other found isFound
  by_cases same : other = name
  · subst same
    rw [AList.lookup_erase] at isFound
    cases isFound
  · rw [AList.lookup_erase_ne same] at isFound
    exact tracked other found isFound

theorem declare_accounts {lost : List Nat} {ledger : Ledger} {world : World types V}
    (tracked : Tracked lost world) {variant : Variant types V} (isTracked : variant.Tracked lost)
    (accounts : Accounts (variant.held ++ world.held) lost ledger) (name : Nat) :
    world.declare name variant ledger = .error .illFormed ∨
      ∃ world', world.declare name variant ledger = .ok (world', ledger) ∧ Tracked lost world' ∧
        Accounts world'.held lost ledger := by
  rw [declare]
  by_cases known : name ∈ world
  · rw [if_pos known]
    exact .inl rfl
  · rw [if_neg known]
    refine .inr ⟨_, rfl, tracked.insert (List.Subset.refl _) isTracked name, ?_⟩
    rw [held_insert_new known]
    exact accounts

end World

variable (conversions : Conversions τ V)

/-- Nothing is lost: nothing is moved from a variant that holds something, and
no assignment has anything to swap. -/
def Operation.Harmless (world : World types V) : Operation τ V → Prop
  | .default _ | .ofValue _ _ | .destroy _ => True
  | .ofVariant _ source category isConst =>
      ¬ (moves category isConst ∧ ∃ other, world.lookup source = some other ∧ other.valid = true)
  | .assign name source category isConst =>
      takesTemplate conversions types category isConst = false ∧
        (∀ variant, world.lookup name = some variant → variant.valid = false) ∧
        ∀ other, world.lookup source = some other → other.valid = false
  | .assignValue _ _ => False

/-- Where a program gets, if it is one, and whether it lost more objects. -/
def Leads (program : Exec (World types V)) (ledger : Ledger) (lost : List Nat) (harmless : Prop) : Prop :=
  program ledger = .error .illFormed ∨
    ∃ world lost' after, program ledger = .ok (world, after) ∧ world.Tracked (lost' ++ lost) ∧
      Accounts world.held (lost' ++ lost) after ∧ (lost' = [] ↔ harmless)

section Step

variable {lost : List Nat} {ledger : Ledger} {world : World types V}

theorem leads_declare (rest : List Nat) (tracked : world.Tracked (rest ++ lost)) {variant : Variant types V}
    (isTracked : variant.Tracked (rest ++ lost))
    (accounts : Accounts (variant.held ++ world.held) (rest ++ lost) ledger) (name : Nat) {harmless : Prop}
    (same : rest = [] ↔ harmless) : Leads (world.declare name variant) ledger lost harmless := by
  rcases World.declare_accounts tracked isTracked accounts name with failed | ⟨after, declared, kept, books⟩
  · exact .inl failed
  · exact .inr ⟨after, rest, ledger, declared, kept, books, same⟩

theorem leads_default (tracked : world.Tracked lost) (accounts : Accounts world.held lost ledger) (name : Nat) :
    Leads (step conversions world (.default name)) ledger lost True := by
  refine leads_declare [] tracked (tracked_vacant (by simp)) ?_ name (by simp)
  rw [held_vacant]
  exact accounts

theorem leads_ofValue (tracked : world.Tracked lost) (accounts : Accounts world.held lost ledger) (name : Nat)
    (argument : Argument τ V) :
    Leads (step conversions world (.ofValue name argument)) ledger lost True := by
  rw [step]
  rcases ofValue_accounts types conversions accounts argument with
    failed | ⟨new, after, made, books, isTracked, -⟩
  · exact .inl (bind_error failed)
  · rw [Leads, bind_ok made]
    exact leads_declare [] tracked isTracked books name (by simp)

/-- The part that construction from a variant and assignment have in common. -/
theorem source_accounts (tracked : world.Tracked lost) (accounts : Accounts world.held lost ledger)
    {source : Nat} {other : Variant types V} (found : world.lookup source = some other)
    (category : ValueCategory) (isConst : Bool) :
    ∃ new other' lost' after,
      other.ofVariant conversions category isConst ledger = .ok ((new, other'), after) ∧
      Accounts (new.held ++ World.held (world.insert source other')) (lost' ++ lost) after ∧
      World.Tracked (lost' ++ lost) (world.insert source other') ∧ Tracked (lost' ++ lost) new ∧
      (lost' = [] ↔ ¬ (moves category isConst ∧ other.valid = true)) ∧
      (new.valid = true ↔ other.valid = true ∨ takesTemplate conversions types category isConst = true) ∧
      (other'.valid = true → other.valid = true) := by
  obtain ⟨new, other', lost', after, made, books, isTracked, isTracked', same, isValid, keeps⟩ :=
    ofVariant_accounts conversions (tracked source other found)
      (accounts.of_perm (World.held_erase found)) category isConst
  exact ⟨new, other', lost', after, made, books,
    tracked.insert (List.subset_append_right _ _) isTracked' source, isTracked, same, isValid, keeps⟩

theorem leads_ofVariant (tracked : world.Tracked lost) (accounts : Accounts world.held lost ledger)
    (name source : Nat) (category : ValueCategory) (isConst : Bool) :
    Leads (step conversions world (.ofVariant name source category isConst)) ledger lost
      (Operation.Harmless conversions world (.ofVariant name source category isConst)) := by
  rw [step]
  cases found : world.lookup source with
  | none => exact .inl (bind_error (World.find_none found ledger))
  | some other =>
      obtain ⟨new, other', lost', after, made, books, tracked', isTracked, same, -, -⟩ :=
        source_accounts conversions tracked accounts found category isConst
      rw [Leads, bind_ok (World.find_some found ledger), bind_ok made]
      refine leads_declare lost' tracked' isTracked books name (same.trans ?_)
      simp [Operation.Harmless, found]

theorem leads_assign (tracked : world.Tracked lost) (accounts : Accounts world.held lost ledger)
    (name source : Nat) (category : ValueCategory) (isConst : Bool) :
    Leads (step conversions world (.assign name source category isConst)) ledger lost
      (Operation.Harmless conversions world (.assign name source category isConst)) := by
  rw [step]
  cases found : world.lookup source with
  | none => exact .inl (bind_error (World.find_none found ledger))
  | some other =>
      obtain ⟨parameter, other', lost', after, made, books, tracked', isTracked, same, isValid, keeps⟩ :=
        source_accounts conversions tracked accounts found category isConst
      rw [Leads, bind_ok (World.find_some found ledger), bind_ok made]
      simp only
      cases target : (world.insert source other').lookup name with
      | none => exact .inl (bind_error (World.find_none target after))
      | some variant =>
          have split := books.of_perm ((World.held_erase target).append_left parameter.held)
          obtain ⟨new, lost'', final, swapped, books', isNew, same'⟩ :=
            swapIn_accounts (tracked' name variant target) isTracked split
          rw [bind_ok (World.find_some target after), assign, bind_ok swapped]
          refine .inr ⟨_, lost'' ++ lost', final, rfl, ?_, ?_, ?_⟩
          · rw [List.append_assoc]
            exact tracked'.insert (List.subset_append_right _ _) isNew name
          · rw [List.append_assoc]
            exact books'
          · rw [List.append_eq_nil_iff, same, same', Operation.Harmless, ← Bool.not_eq_true parameter.valid,
              isValid, not_or, Bool.not_eq_true, Bool.not_eq_true]
            -- The variable assigned to is the source, as it is left, or another one.
            by_cases self : name = source
            · subst self
              rw [AList.lookup_insert] at target
              obtain rfl := Option.some.inj target
              have vacated : other.valid = false → other'.valid = false := by
                intro isEmpty
                by_contra isFull
                rw [keeps (by simpa using isFull)] at isEmpty
                cases isEmpty
              simp [found]
              grind
            · rw [AList.lookup_insert_ne self] at target
              simp [found, target]
              grind

theorem leads_assignValue (tracked : world.Tracked lost) (accounts : Accounts world.held lost ledger)
    (name : Nat) (argument : Argument τ V) :
    Leads (step conversions world (.assignValue name argument)) ledger lost False := by
  rw [step]
  cases target : world.lookup name with
  | none => exact .inl (bind_error (World.find_none target ledger))
  | some variant =>
      rw [Leads, bind_ok (World.find_some target ledger), assignValue_eq]
      have split := accounts.of_perm (World.held_erase target)
      rcases ofValue_accounts types conversions split argument with
        failed | ⟨temp, after, made, books, isTracked, isValid⟩
      · exact .inl (bind_error (bind_error failed))
      · obtain ⟨new, lost', final, swapped, books', isNew, same⟩ :=
          swapIn_accounts (tracked name variant target) isTracked books
        have assigned : (ofValue conversions argument >>= variant.swapIn) ledger = .ok (new, final) := by
          rw [bind_ok made, swapped]
        rw [bind_ok assigned]
        refine .inr ⟨_, lost', final, rfl, tracked.insert (List.subset_append_right _ _) isNew name, books', ?_⟩
        rw [same, isValid]
        simp

theorem leads_destroy (tracked : world.Tracked lost) (accounts : Accounts world.held lost ledger) (name : Nat) :
    Leads (step conversions world (.destroy name)) ledger lost True := by
  rw [step]
  cases found : world.lookup name with
  | none => exact .inl (bind_error (World.find_none found ledger))
  | some variant =>
      obtain ⟨after, destroyed, books⟩ :=
        destroyed_accounts (tracked name variant found) (accounts.of_perm (World.held_erase found))
      rw [Leads, bind_ok (World.find_some found ledger), bind_ok destroyed]
      exact .inr ⟨_, [], after, rfl, tracked.erase name, books, by simp⟩

theorem leads_step (tracked : world.Tracked lost) (accounts : Accounts world.held lost ledger)
    (operation : Operation τ V) :
    Leads (step conversions world operation) ledger lost (operation.Harmless conversions world) := by
  cases operation with
  | default name => exact leads_default conversions tracked accounts name
  | ofValue name argument => exact leads_ofValue conversions tracked accounts name argument
  | ofVariant name source category isConst =>
      exact leads_ofVariant conversions tracked accounts name source category isConst
  | assign name source category isConst =>
      exact leads_assign conversions tracked accounts name source category isConst
  | assignValue name argument => exact leads_assignValue conversions tracked accounts name argument
  | destroy name => exact leads_destroy conversions tracked accounts name

end Step

/-! ## Runs -/

/-- Every operation of a run is harmless in the world it meets. -/
def AllHarmless (types : Pack τ) (operations : List (Operation τ V)) : Prop :=
  ∀ before operation, before ++ [operation] <+: operations →
    ∀ (world : World types V) (ledger : Ledger), run conversions before {} = .ok (world, ledger) →
      operation.Harmless conversions world

/-- What the variants are to do with the objects: in no state of a run was an
object constructed over a live one or destroyed twice, and when no variable is
left each object constructed has been destroyed. -/
def LifetimesKept (types : Pack τ) (operations : List (Operation τ V)) : Prop :=
  ∀ before, before <+: operations →
    ∀ (world : World types V) (ledger : Ledger), run conversions before {} = .ok (world, ledger) →
      ledger.overwritten = [] ∧ ledger.destroyed.Nodup ∧
        (world.entries = [] → ledger.destroyed.Perm (List.range ledger.constructed))

theorem allHarmless_concat {operations : List (Operation τ V)} {last : Operation τ V} {world : World types V}
    {ledger : Ledger} (ran : run conversions operations {} = .ok (world, ledger)) :
    AllHarmless conversions types (operations ++ [last]) ↔
      AllHarmless conversions types operations ∧ last.Harmless conversions world := by
  constructor
  · intro all
    constructor
    · intro before operation within
      exact all before operation (within.trans (List.prefix_append _ _))
    · exact all operations last List.prefix_rfl world ledger ran
  · intro ⟨all, isHarmless⟩ before operation within other ledger' ran'
    rcases List.prefix_concat_iff.mp within with same | shorter
    · obtain ⟨rfl, rfl⟩ := List.append_singleton_inj.mp same
      rw [ran] at ran'
      cases ran'
      exact isHarmless
    · exact all before operation shorter other ledger' ran'

variable (types) in
/-- A run stays in the books; it loses nothing if all its operations are harmless. -/
theorem run_accounts (operations : List (Operation τ V)) :
    run conversions operations {} = (.error .illFormed : Except Failure (World types V × Ledger)) ∨
      ∃ (world : World types V) (lost : List Nat) (ledger : Ledger),
        run conversions operations {} = .ok (world, ledger) ∧ world.Tracked lost ∧
        Accounts world.held lost ledger ∧ (lost = [] ↔ AllHarmless conversions types operations) := by
  induction operations using List.reverseRecOn with
  | nil =>
      refine .inr ⟨∅, [], {}, rfl, ?_, accounts_empty, ?_⟩
      · intro name variant found
        cases found
      · refine iff_of_true rfl ?_
        intro before operation within
        simp at within
  | append_singleton operations last ih =>
      rw [run_concat]
      rcases ih with failed | ⟨world, lost, ledger, ran, tracked, accounts, same⟩
      · exact .inl (bind_error failed)
      · rw [bind_ok ran, allHarmless_concat conversions ran]
        rcases leads_step conversions tracked accounts last with
          failed | ⟨after, lost', ledger', stepped, tracked', accounts', same'⟩
        · exact .inl failed
        · refine .inr ⟨after, lost' ++ lost, ledger', stepped, tracked', accounts', ?_⟩
          rw [List.append_eq_nil_iff, same, same', and_comm]

/-- What a program produces is sound. -/
theorem Reachable.sound {variant : Variant types V} (reachable : Reachable conversions variant) :
    variant.Sound := by
  obtain ⟨operations, world, ledger, name, ran, found⟩ := reachable
  rcases run_accounts types conversions operations with failed | ⟨world', lost, ledger', ran', tracked, -, -⟩
  · rw [ran] at failed
    cases failed
  · rw [ran] at ran'
    cases ran'
    exact (tracked name variant found).sound

variable (types) in
/-- Harmless operations keep to the lifetimes of the objects, in every state of a
run; a run that has ended with no variable left has kept to them only then. -/
theorem lifetimesKept_iff (operations : List (Operation τ V)) :
    (AllHarmless conversions types operations → LifetimesKept conversions types operations) ∧
      ∀ (world : World types V) (ledger : Ledger), run conversions operations {} = .ok (world, ledger) →
        world.entries = [] →
          (LifetimesKept conversions types operations ↔ AllHarmless conversions types operations) := by
  have kept : AllHarmless conversions types operations → LifetimesKept conversions types operations := by
    intro all before within world ledger ran
    have allBefore : AllHarmless conversions types before :=
      fun earlier operation shorter => all earlier operation (shorter.trans within)
    rcases run_accounts types conversions before with
      failed | ⟨world', lost, ledger', ran', -, accounts, same⟩
    · rw [ran] at failed
      cases failed
    · rw [ran] at ran'
      cases ran'
      rw [same.mpr allBefore] at accounts
      refine ⟨accounts.overwritten_eq_nil, accounts.destroyed_nodup, ?_⟩
      intro none
      rw [World.held, none] at accounts
      exact accounts.destroyed_perm_iff.mpr rfl
  refine ⟨kept, ?_⟩
  intro world ledger ran none
  refine ⟨?_, kept⟩
  intro lifetimes
  rcases run_accounts types conversions operations with
    failed | ⟨world', lost, ledger', ran', -, accounts, same⟩
  · rw [ran] at failed
    cases failed
  · rw [ran] at ran'
    cases ran'
    rw [World.held, none] at accounts
    have all := (lifetimes operations List.prefix_rfl world ledger ran).2.2 none
    exact same.mp (accounts.destroyed_perm_iff.mp all)

/-- A variant and a copy of it. -/
def copyingProgram : List (Operation Arithmetic Arithmetic.Value) :=
  [.ofValue 0 (intArgument 1), .ofVariant 1 0 .lvalue true, .destroy 1, .destroy 0]

theorem copyingProgram_lifetimesKept :
    LifetimesKept arithmeticConversions intDouble copyingProgram ∧
      (LifetimesKept arithmeticConversions intDouble copyingProgram ↔
        AllHarmless arithmeticConversions intDouble copyingProgram) := by
  obtain ⟨kept, keptOnly⟩ := lifetimesKept_iff intDouble arithmeticConversions copyingProgram
  refine ⟨kept ?_, keptOnly ∅ ⟨2, [1, 0], []⟩ rfl rfl⟩
  intro before operation within world ledger ran
  have member : operation ∈ copyingProgram := within.subset (by simp)
  simp only [copyingProgram, List.mem_cons, List.not_mem_nil, or_false] at member
  rcases member with rfl | rfl | rfl | rfl
  · trivial
  · simp [Operation.Harmless, moves]
  · trivial
  · trivial

/-- `v = 2`. -/
def assigningProgram : List (Operation Arithmetic Arithmetic.Value) :=
  [.ofValue 0 (intArgument 1), .assignValue 0 (intArgument 2), .destroy 0]

/-- Of the five objects two are destroyed; the others were lost in the swap. -/
theorem assigningProgram_leaks :
    run arithmeticConversions assigningProgram {} =
        .ok ((∅ : World intDouble Arithmetic.Value), ⟨5, [3, 4], [1, 0]⟩) ∧
      ¬ LifetimesKept arithmeticConversions intDouble assigningProgram := by
  have ran : run arithmeticConversions assigningProgram {} =
      .ok ((∅ : World intDouble Arithmetic.Value), ⟨5, [3, 4], [1, 0]⟩) := rfl
  refine ⟨ran, ?_⟩
  intro kept
  have overwritten := (kept assigningProgram List.prefix_rfl _ _ ran).1
  cases overwritten

end Snowlake.Variant
