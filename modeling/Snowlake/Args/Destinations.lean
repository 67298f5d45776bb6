import Snowlake.Args.Specification
import Snowlake.Args.Stored

/-! # Values, defaults and destinations of one type

Whatever is registered, registered again and parsed, the variants of an option
and its erased destination agree, and the assignments neither throw nor write
through a pointer of another type.
-/

namespace Snowlake.ArgumentParser

open Objects Variant

variable {platform : Platform}

/-- A call that changes the parser. -/
inductive Call (platform : Platform) where
  | addParameter (parameter : TypedParameter platform)
  | setMinimumPositionalArgsRequired (n : Nat)
  | parseArgs (argv : List (Option Text))

/-- What a call makes of the parser and the destinations in the model. -/
def Call.next (parser : ArgumentParser platform) (memory : Memory platform) :
    Call platform → ArgumentParser platform × Memory platform
  | .addParameter parameter => (parser.addParameter parameter.parameter, memory)
  | .setMinimumPositionalArgsRequired n => (parser.setMinimumPositionalArgsRequired n, memory)
  | .parseArgs argv =>
      let result := parser.parseArgs argv memory
      (result.parser, result.memory)

namespace StoredParser

variable (conversions : ValueConversions platform)

def perform (parser : StoredParser platform) (memory : Memory platform) :
    Call platform → Exec (StoredParser platform × Memory platform)
  | .addParameter parameter => return (← parser.addParameter conversions parameter, memory)
  | .setMinimumPositionalArgsRequired n => return (parser.setMinimumPositionalArgsRequired n, memory)
  | .parseArgs argv => do
      let (_, parser, memory) ← parser.parseArgs conversions argv memory
      return (parser, memory)

/-- The tables in another order of iteration. -/
structure Reordered (before after : StoredParser platform) : Prop where
  opts : after.opts.entries.Perm before.opts.entries
  shorthandMap : after.shorthandMap.entries.Perm before.shorthandMap.entries
  positionalArgs : after.positionalArgs = before.positionalArgs
  minimum : after.minPositionalArgsRequired = before.minPositionalArgsRequired

/-- The states that calls lead to, in whatever order the tables are iterated. -/
inductive Reachable : StoredParser platform → Prop
  | constructed : Reachable {}
  | reordered {before after : StoredParser platform} (reachable : Reachable before)
      (reordered : Reordered before after) : Reachable after
  | called {before after : StoredParser platform} (reachable : Reachable before) (call : Call platform)
      {memory memory' : Memory platform} {ledger ledger' : Ledger}
      (ran : before.perform conversions memory call ledger = .ok ((after, memory'), ledger')) : Reachable after

end StoredParser

/-- The default, the value if there is one, and the destination are all of this type. -/
structure StoredOption.Agrees (option : StoredOption platform) (type : ValueType) : Prop where
  defaultValue : option.defaultValue.is type = true
  value : option.value.valid = false ∨ option.value.is type = true
  dst : ∀ dst ∈ option.dst, dst.type = type

theorem StoredOption.Stores.agrees {stored : StoredOption platform} {option : CmdlOption platform}
    (stores : Stores stored option) : stored.Agrees option.defaultValue.type := by
  constructor
  case defaultValue =>
    rw [stores.defaultValue.is (mem_valueTypes _)]
    exact decide_eq_true rfl
  case value =>
    have holds := stores.value
    rw [holds.valid]
    cases given : option.value with
    | none => exact .inl rfl
    | some value =>
        rw [given] at holds
        refine .inr ?_
        rw [holds.is (mem_valueTypes _)]
        exact decide_eq_true (option.typed value given)
  case dst =>
    intro dst isDst
    rw [stores.dst] at isDst
    obtain ⟨address, _, rfl⟩ := Option.map_eq_some_iff.mp isDst
    rfl

namespace StoredParser

variable {conversions : ValueConversions platform} {stored : StoredParser platform}
  {parser : ArgumentParser platform}

theorem perform_stores (stores : Stores stored parser) (memory : Memory platform) (call : Call platform) :
    Refines (fun made result => Stores made.1 result.1 ∧ made.2 = result.2)
      (stored.perform conversions memory call) (.ok (Call.next parser memory call)) := by
  cases call with
  | addParameter parameter =>
      refine Refines.step (addParameter_stores stores parameter) ?_
      intro made isStored
      exact Refines.pure ⟨isStored, rfl⟩
  | setMinimumPositionalArgsRequired n =>
      exact Refines.pure ⟨⟨stores.opts, stores.shorthandMap, stores.positionalArgs, rfl⟩, rfl⟩
  | parseArgs argv =>
      refine Refines.step (parseArgs_stores stores argv memory) ?_
      intro ⟨returned, made, memory'⟩ ⟨_, isStored, sameMemory⟩
      exact Refines.pure ⟨isStored, sameMemory⟩

theorem reordered_stores (stores : Stores stored parser) {after : StoredParser platform}
    (reordered : Reordered stored after) : ∃ parser', Stores after parser' := by
  obtain ⟨entries, related, perm⟩ := List.perm_comp_forall₂ reordered.opts stores.opts
  exact ⟨⟨⟨entries, (List.perm_nodupKeys perm).mpr parser.opts.nodupKeys⟩, after.shorthandMap,
    after.positionalArgs, after.minPositionalArgsRequired⟩, related, rfl, rfl, rfl⟩

/-- Every state that can be reached stores a state of the model. -/
theorem Reachable.stores (reachable : Reachable conversions stored) : ∃ parser, Stores stored parser := by
  induction reachable with
  | constructed => exact ⟨{}, Table.related_empty, rfl, rfl, rfl⟩
  | reordered _ reordered ih =>
      obtain ⟨parser, stores⟩ := ih
      exact reordered_stores stores reordered
  | called _ call ran ih =>
      obtain ⟨parser, stores⟩ := ih
      obtain ⟨made, ledger, ran', isStored, _⟩ := (perform_stores stores _ call).returns _
      rw [ran] at ran'
      cases ran'
      exact ⟨_, isStored⟩

/-- In every state that can be reached each option is of one type throughout, and
neither assigning the values nor any other call throws or does what is undefined,
but for the exception of a string made of a null pointer: there a call returns `none`. -/
theorem reachable_agrees (reachable : Reachable conversions stored) :
    (∀ name option, stored.opts.lookup name = some option → ∃ type, option.Agrees type) ∧
      (∀ memory ledger, ∃ assigned ledger',
        stored.assignValues conversions memory ledger = .ok (assigned, ledger')) ∧
      ∀ call memory ledger, ∃ called ledger',
        stored.perform conversions memory call ledger = .ok (called, ledger') := by
  obtain ⟨parser, stores⟩ := reachable.stores
  refine ⟨?_, ?_, ?_⟩
  · intro name option found
    have options := stores.opts.lookup name
    rw [found] at options
    generalize parser.opts.lookup name = other at options
    cases options with
    | some isStored => exact ⟨_, isStored.agrees⟩
  · intro memory ledger
    obtain ⟨assigned, ledger', ran, _⟩ := (assignValues_stores stores memory).returns ledger
    exact ⟨assigned, ledger', ran⟩
  · intro call memory ledger
    obtain ⟨called, ledger', ran, _⟩ := (perform_stores stores memory call).returns ledger
    exact ⟨called, ledger', ran⟩

def blankPayload : (type : ValueType) → Payload integerPlatform type
  | .string => ([] : Text)
  | .uint32 => (0 : UInt32)
  | .uint64 => (0 : UInt64)
  | .bool => false
  | .float | .double => (0 : Int)

/-- No conversion but from a type to itself. -/
def integerConversions : ValueConversions integerPlatform where
  isConvertible
    | .value _ source, target => source = target
    | .variant _, _ => false
  convert _ _ source target value := if same : source = target then same ▸ value else blankPayload target
  convertVariant _ _ _ := blankPayload
  isConvertible_self _ _ := decide_eq_true rfl
  convert_self _ _ _ _ := by simp

/-- `n` as a number, and then as a text. -/
def numberParameter : TypedParameter integerPlatform := ⟨.uint32, ['n'], 'n', false, some 0, (5 : UInt32)⟩

def textParameter : TypedParameter integerPlatform := ⟨.string, ['n'], 'n', false, some 1, (['x'] : Text)⟩

/-- What the second registration leaves of the option. -/
def textOption : StoredOption integerPlatform :=
  ⟨'n', false, full .string 8 (['x'] : Text), .default, some ⟨.string, 1⟩⟩

def registeredTwice : StoredParser integerPlatform :=
  { opts := (∅ : Table Text _).insert ['n'] textOption
    shorthandMap := (∅ : Table Char Text).insert 'n' ['n'] }

theorem registeredTwice_agrees :
    (∃ type, textOption.Agrees type) ∧
      ∃ called ledger', registeredTwice.perform integerConversions blankMemory
        (.parseArgs [none, some ['-', 'n'], some ['7']]) {} = .ok (called, ledger') := by
  have once : Reachable integerConversions
      { opts := (∅ : Table Text (StoredOption integerPlatform)).insert ['n']
          ⟨'n', false, full .uint32 3 (5 : UInt32), .default, some ⟨.uint32, 0⟩⟩
        shorthandMap := (∅ : Table Char Text).insert 'n' ['n'] } :=
    @Reachable.called _ _ _ _ .constructed (.addParameter numberParameter) blankMemory _ {} _ rfl
  have twice : Reachable integerConversions registeredTwice :=
    @Reachable.called _ _ _ _ once (.addParameter textParameter) blankMemory _ ⟨4, [0], []⟩ _ rfl
  obtain ⟨agrees, _, calls⟩ := reachable_agrees twice
  exact ⟨agrees ['n'] textOption rfl, calls _ blankMemory {}⟩

end StoredParser

end Snowlake.ArgumentParser
