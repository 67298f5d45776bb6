import Snowlake.Args.Items

/-! # Calls of `parseArgs`

What a call returns, which depends on the items it reads and on the state before,
and what it leaves behind.
-/

namespace Snowlake.ArgumentParser

open Writes

variable {platform : Platform}

/-- Every shorthand belongs to an option of its own. -/
def Consistent (parser : ArgumentParser platform) : Prop :=
  parser.shorthandMap.entries.length = parser.opts.entries.length ∧
    ∀ c name, parser.shorthandMap.lookup c = some name →
      ∃ option, parser.opts.lookup name = some option ∧ option.shorthand = c

/-- The checks after the items, in terms of the state before them. -/
structure Accepts (parser : ArgumentParser platform) (items : List Item) : Prop where
  consistent : parser.Consistent
  minimum : parser.minPositionalArgsRequired ≤ (parser.positionalArgs ++ positionals items).length
  required : ∀ name option, parser.opts.lookup name = some option → option.required = true →
    Occurs name items ∨ option.value.isSome = true

theorem not_occurs_nil (name : Text) : ¬ Occurs name [] := by
  intro ⟨_, member, _⟩
  cases member

theorem checkShorthand_iff (parser : ArgumentParser platform) (c : Char) (name : Text) :
    parser.checkShorthand c name = true ↔
      ∃ option, parser.opts.lookup name = some option ∧ option.shorthand = c := by
  rw [checkShorthand]
  cases parser.opts.lookup name <;> simp

theorem checkShorthands_iff (parser : ArgumentParser platform) :
    parser.checkShorthands = true ↔ parser.Consistent := by
  rw [checkShorthands, Bool.and_eq_true, decide_eq_true_eq, List.all_eq_true]
  refine and_congr_right fun _ => ?_
  constructor
  · intro all c name found
    exact (checkShorthand_iff parser c name).mp (all ⟨c, name⟩ (AList.mem_lookup_iff.mp found))
  · intro all pair member
    exact (checkShorthand_iff parser pair.1 pair.2).mpr (all pair.1 pair.2 (Table.lookup_of_mem member))

theorem checkParameters_iff (parser : ArgumentParser platform) :
    parser.checkParameters = true ↔ Accepts parser [] := by
  have required : (parser.opts.entries.all fun pair => !(pair.2.required && !pair.2.value.isSome)) = true ↔
      ∀ name option, parser.opts.lookup name = some option → option.required = true →
        option.value.isSome = true := by
    rw [List.all_eq_true]
    constructor
    · intro all name option found isRequired
      have here := all ⟨name, option⟩ (AList.mem_lookup_iff.mp found)
      simpa [isRequired] using here
    · intro all pair member
      have here := all pair.1 pair.2 (Table.lookup_of_mem member)
      cases isRequired : pair.2.required with
      | false => rfl
      | true => simp [here isRequired]
  rw [checkParameters]
  simp only [Bool.and_eq_true, decide_eq_true_eq, checkShorthands_iff, required]
  constructor
  · intro ⟨⟨consistent, minimum⟩, provided⟩
    refine ⟨consistent, ?_, fun name option found isRequired => .inr (provided name option found isRequired)⟩
    rwa [positionals, List.filterMap_nil, List.append_nil]
  · intro accepts
    refine ⟨⟨accepts.consistent, ?_⟩, fun name option found isRequired => ?_⟩
    · simpa [positionals] using accepts.minimum
    · exact (accepts.required name option found isRequired).resolve_left (not_occurs_nil name)

namespace Follows

variable {items : List Item} {parser next : ArgumentParser platform}

/-- An option after the items comes from the option before them. -/
theorem option_of_lookup (follows : Follows items parser next) {name : Text}
    {after : CmdlOption platform} (found : next.opts.lookup name = some after) :
    ∃ option, parser.opts.lookup name = some option ∧ option.Follows items name after := by
  cases before : parser.opts.lookup name with
  | none =>
      rw [follows.lookup_none before] at found
      cases found
  | some option =>
      obtain ⟨other, foundOther, same⟩ := follows.option name option before
      obtain rfl := Option.some.inj (found.symm.trans foundOther)
      exact ⟨option, rfl, same⟩

theorem length_opts (follows : Follows items parser next) :
    next.opts.entries.length = parser.opts.entries.length := by
  have lengths := congrArg List.length follows.keys
  simpa only [AList.keys, List.keys, List.length_map] using lengths

theorem consistent_iff (follows : Follows items parser next) :
    next.Consistent ↔ parser.Consistent := by
  rw [Consistent, Consistent, follows.length_opts, follows.shorthandMap]
  refine and_congr_right fun _ => forall_congr' fun c => forall_congr' fun name =>
    imp_congr_right fun _ => ?_
  constructor
  · intro ⟨after, found, owns⟩
    obtain ⟨option, foundBefore, same⟩ := follows.option_of_lookup found
    exact ⟨option, foundBefore, same.shorthand.symm.trans owns⟩
  · intro ⟨option, found, owns⟩
    obtain ⟨after, foundAfter, same⟩ := follows.option name option found
    exact ⟨after, foundAfter, same.shorthand.trans owns⟩

theorem accepts_iff (follows : Follows items parser next) : Accepts next [] ↔ Accepts parser items := by
  have provided {name : Text} {option after : CmdlOption platform}
      (same : option.Follows items name after) :
      after.value.isSome = true ↔ Occurs name items ∨ option.value.isSome = true := by
    rw [same.value, Option.isSome_or, Bool.or_eq_true, given_isSome_iff]
  constructor
  · intro accepts
    refine ⟨follows.consistent_iff.mp accepts.consistent, ?_, fun name option found isRequired => ?_⟩
    · rw [← follows.minimum, ← follows.positionalArgs]
      simpa [positionals] using accepts.minimum
    · obtain ⟨after, foundAfter, same⟩ := follows.option name option found
      exact (provided same).mp ((accepts.required name after foundAfter
        (same.required.trans isRequired)).resolve_left (not_occurs_nil name))
  · intro accepts
    refine ⟨follows.consistent_iff.mpr accepts.consistent, ?_, fun name after found isRequired => ?_⟩
    · rw [follows.minimum, follows.positionalArgs]
      simpa [positionals] using accepts.minimum
    · obtain ⟨option, foundBefore, same⟩ := follows.option_of_lookup found
      exact .inr ((provided same).mpr (accepts.required name option foundBefore
        (same.required.symm.trans isRequired)))

/-- Destinations do not change. -/
theorem dst (follows : Follows items parser next) (name : Text) :
    (next.opts.lookup name).bind (·.dst) = (parser.opts.lookup name).bind (·.dst) := by
  cases found : parser.opts.lookup name with
  | none => rw [follows.lookup_none found]
  | some option =>
      obtain ⟨after, foundAfter, same⟩ := follows.option name option found
      rw [foundAfter]
      exact same.dst

theorem destinations (follows : Follows items parser next) :
    next.writes.map (·.1) = parser.writes.map (·.1) := by
  have dsts (parser : ArgumentParser platform) : parser.writes.map (·.1) =
      parser.opts.keys.filterMap fun name => (parser.opts.lookup name).bind (·.dst) := by
    rw [writes, List.map_filterMap, ← Table.filterMap_entries]
    refine List.filterMap_congr fun entry _ => ?_
    rw [CmdlOption.write]
    cases entry.2.dst <;> rfl
  rw [dsts, dsts, follows.keys]
  exact List.filterMap_congr fun name _ => follows.dst name

end Follows

/-! ## One call -/

/-- What a call leaves behind that reads these items. -/
structure Performs (parser : ArgumentParser platform) (items : List Item) (memory : Memory platform)
    (result : Result platform) : Prop where
  follows : Follows items parser result.parser
  written : result.returned = some true → result.memory = writeAll memory result.parser.writes
  kept : result.returned ≠ some true → result.memory = memory

theorem parseArgs_performs {parser : ArgumentParser platform} {argv : List (Option Text)}
    {items : List Item} {returned : Option Bool} (reads : Reads parser argv items returned)
    (program : Option Text) (memory : Memory platform) :
    Performs parser items memory (parser.parseArgs (program :: argv) memory) ∧
      ((parser.parseArgs (program :: argv) memory).returned = some true ↔
        returned = some true ∧ Accepts parser items) := by
  obtain ⟨next, follows, scanned⟩ := internalParseArgs_reads reads program
  have checked := (checkParameters_iff next).trans follows.accepts_iff
  rw [parseArgs, scanned]
  by_cases whole : returned = some true
  · by_cases accepts : next.checkParameters = true
    · simp only [whole, accepts, ne_eq, not_true_eq_false, if_false, if_true, true_and, true_iff]
      exact ⟨⟨follows, fun _ => rfl, fun refused => absurd rfl refused⟩, checked.mp accepts⟩
    · have refused : ¬ Accepts parser items := fun accepted => accepts (checked.mpr accepted)
      simp only [whole, accepts, refused, ne_eq, not_true_eq_false, if_false, and_false, iff_false]
      exact ⟨⟨follows, fun accepted => Bool.noConfusion (Option.some.inj accepted), fun _ => rfl⟩,
        fun accepted => Bool.noConfusion (Option.some.inj accepted)⟩
  · simp only [whole, ne_eq, not_false_eq_true, if_true, false_and, and_true]
    exact ⟨follows, fun accepted => absurd accepted whole, fun _ => rfl⟩

end Snowlake.ArgumentParser
