import Snowlake.Args.Specification

/-! # Several calls on one parser

Positional arguments and option values are members that no call clears.  A call
has the outcome of a fresh parser if the calls before it read no positional
argument, and no option that it does not read itself.
-/

namespace Snowlake.ArgumentParser

variable {platform : Platform}

/-- Registered, and not called yet. -/
structure Fresh (parser : ArgumentParser platform) : Prop where
  positionalArgs : parser.positionalArgs = []
  value : ∀ name option, parser.opts.lookup name = some option → option.value = none

/-- The parser and the destinations after some calls. -/
def runCalls (parser : ArgumentParser platform) (memory : Memory platform) :
    List (List (Option Text)) → ArgumentParser platform × Memory platform
  | [] => (parser, memory)
  | argv :: later =>
      let result := parser.parseArgs argv memory
      runCalls result.parser result.memory later

/-- What can be seen of a call: the value it returns, the destinations, and what
`positionalArgs` and `optionProvided` return. -/
structure Outcome (platform : Platform) where
  returned : Option Bool
  memory : Memory platform
  positionalArgs : List Text
  optionProvided : Text → Bool

def Result.outcome (result : Result platform) : Outcome platform :=
  ⟨result.returned, result.memory, result.parser.positionalArgs, result.parser.optionProvided⟩

/-- The last call has the outcome that a fresh parser gives. -/
def NothingSurvives (parser : ArgumentParser platform) (memory : Memory platform)
    (earlier : List (List (Option Text))) (last : List (Option Text)) : Prop :=
  let state := parser.runCalls memory earlier
  (state.1.parseArgs last state.2).outcome = (parser.parseArgs last state.2).outcome

/-- The earlier calls read no positional argument, and only options that the last
call reads. -/
def Overwritten (parser : ArgumentParser platform) (earlier : List (List (Option Text)))
    (last : List (Option Text)) : Prop :=
  ∀ argv ∈ earlier, ∀ items returned, Reads parser argv.tail items returned →
    positionals items = [] ∧
      ∀ name, Occurs name items → ∀ lastItems lastReturned,
        Reads parser last.tail lastItems lastReturned → Occurs name lastItems

theorem Fresh.addParameter {parser : ArgumentParser platform} (fresh : Fresh parser)
    (parameter : Parameter platform) : Fresh (parser.addParameter parameter) where
  positionalArgs := fresh.positionalArgs
  value := by
    intro name option found
    by_cases same : name = parameter.name
    · subst same
      obtain rfl := Option.some.inj ((AList.lookup_insert _).symm.trans found)
      rfl
    · exact fresh.value name option ((AList.lookup_insert_ne same).symm.trans found)

/-- Whatever is registered, the parser is fresh. -/
theorem fresh_register (parameters : List (Parameter platform)) (minimum : Nat) :
    Fresh (register parameters minimum) := by
  have all (parser : ArgumentParser platform) (fresh : Fresh parser) :
      Fresh (parameters.foldl ArgumentParser.addParameter parser) := by
    induction parameters generalizing parser with
    | nil => exact fresh
    | cons parameter parameters ih => exact ih _ (fresh.addParameter parameter)
  obtain ⟨positionalArgs, value⟩ := all {} ⟨rfl, nofun⟩
  exact ⟨positionalArgs, value⟩

theorem Registered.fresh {parameters : List (Parameter platform)} {minimum : Nat}
    {parser : ArgumentParser platform} (registered : Registered parameters minimum parser) :
    Fresh parser where
  positionalArgs := registered.positionalArgs
  value := fun name option found =>
    (fresh_register parameters minimum).value name option (AList.perm_lookup registered.opts ▸ found)

theorem Fresh.optionProvided {parser : ArgumentParser platform} (fresh : Fresh parser) (name : Text) :
    parser.optionProvided name = false := by
  rw [ArgumentParser.optionProvided]
  cases found : parser.opts.lookup name with
  | none => rfl
  | some option => exact congrArg Option.isSome (fresh.value name option found)

/-! ## The state after calls -/

theorem Follows.reads {items : List Item} {parser next : ArgumentParser platform}
    (follows : Follows items parser next) {argv : List (Option Text)} {later : List Item}
    {returned : Option Bool} (reads : Reads parser argv later returned) : Reads next argv later returned := by
  obtain ⟨rest, split, stops⟩ := reads.split
  exact ⟨fun item member => (follows.valid_iff item).mpr (reads.valid item member), rest, split,
    follows.stops stops⟩

/-- What a call leaves, also one without a program name. -/
theorem internalParseArgs_call {parser : ArgumentParser platform} {argv : List (Option Text)}
    {items : List Item} {returned : Option Bool} (reads : Reads parser argv.tail items returned) :
    ∃ next, Follows items parser next ∧
      parser.internalParseArgs argv = (if argv = [] then some false else returned, next) := by
  cases argv with
  | nil =>
      have nothing : Reads parser [] [] (some true) := ⟨nofun, [], rfl, .done⟩
      obtain rfl := reads.unique nothing
      exact ⟨parser, .refl parser, rfl⟩
  | cons program args =>
      obtain ⟨next, follows, scanned⟩ := internalParseArgs_reads reads program
      rw [if_neg (List.cons_ne_nil program args)]
      exact ⟨next, follows, scanned⟩

theorem parser_of_parseArgs (parser : ArgumentParser platform) (argv : List (Option Text))
    (memory : Memory platform) :
    (parser.parseArgs argv memory).parser = (parser.internalParseArgs argv).2 := by
  rw [parseArgs]
  cases parser.internalParseArgs argv with
  | mk returned next =>
      simp only
      split
      · rfl
      · split <;> rfl

/-- After some calls, the parser has the items of all of them behind it. -/
theorem runCalls_follows (parser : ArgumentParser platform) (calls : List (List (Option Text)))
    {behind : List Item} {current : ArgumentParser platform} (follows : Follows behind parser current)
    (memory : Memory platform) :
    ∃ items, Follows (behind ++ items) parser (current.runCalls memory calls).1 ∧
      ∀ item, item ∈ items ↔ ∃ argv ∈ calls, ∃ read returned,
        Reads parser argv.tail read returned ∧ item ∈ read := by
  induction calls generalizing behind current memory with
  | nil => exact ⟨[], (List.append_nil behind).symm ▸ follows, by simp⟩
  | cons argv calls ih =>
      obtain ⟨read, returned, reads⟩ := exists_reads parser argv.tail
      obtain ⟨next, followsCall, scanned⟩ := internalParseArgs_call (follows.reads reads)
      have atNext : (current.parseArgs argv memory).parser = next := by
        rw [parser_of_parseArgs, scanned]
      obtain ⟨items, followsAll, members⟩ :=
        ih (follows.append followsCall) (current.parseArgs argv memory).memory
      refine ⟨read ++ items, ?_, fun item => ?_⟩
      · rw [runCalls, atNext, ← List.append_assoc]
        exact followsAll
      · rw [List.mem_append, members]
        constructor
        · intro member
          rcases member with here | ⟨other, inCalls, later⟩
          · exact ⟨argv, List.mem_cons_self, read, returned, reads, here⟩
          · exact ⟨other, List.mem_cons_of_mem _ inCalls, later⟩
        · intro ⟨other, inCalls, otherRead, otherReturned, otherReads, member⟩
          rcases List.mem_cons.mp inCalls with rfl | inLater
          · exact .inl (reads.unique otherReads ▸ member)
          · exact .inr ⟨other, inLater, otherRead, otherReturned, otherReads, member⟩

theorem positionals_eq_nil_iff (items : List Item) :
    positionals items = [] ↔ ∀ item ∈ items, item.positional? = none :=
  List.filterMap_eq_nil_iff

/-- The condition, in terms of all earlier items. -/
theorem overwritten_iff {parser : ArgumentParser platform} {earlier : List (List (Option Text))}
    {last : List (Option Text)} {items lastItems : List Item} {returned : Option Bool}
    (members : ∀ item, item ∈ items ↔ ∃ argv ∈ earlier, ∃ read returned,
      Reads parser argv.tail read returned ∧ item ∈ read)
    (lastReads : Reads parser last.tail lastItems returned) :
    Overwritten parser earlier last ↔
      positionals items = [] ∧ ∀ name, Occurs name items → Occurs name lastItems := by
  rw [positionals_eq_nil_iff]
  constructor
  · intro overwritten
    refine ⟨fun item member => ?_, fun name ⟨item, member, named⟩ => ?_⟩
    · obtain ⟨argv, inEarlier, read, _, reads, inRead⟩ := (members item).mp member
      exact (positionals_eq_nil_iff read).mp (overwritten argv inEarlier read _ reads).1 item inRead
    · obtain ⟨argv, inEarlier, read, _, reads, inRead⟩ := (members item).mp member
      exact (overwritten argv inEarlier read _ reads).2 name ⟨item, inRead, named⟩ lastItems _ lastReads
  · intro ⟨noPositional, again⟩ argv inEarlier read readReturned reads
    refine ⟨(positionals_eq_nil_iff read).mpr fun item member => ?_, ?_⟩
    · exact noPositional item ((members item).mpr ⟨argv, inEarlier, read, _, reads, member⟩)
    · intro name ⟨item, member, named⟩ otherItems _ otherReads
      rw [otherReads.unique lastReads]
      exact again name ⟨item, (members item).mpr ⟨argv, inEarlier, read, _, reads, member⟩, named⟩

theorem given_eq_none {items : List Item} {name : Text} (absent : ¬ Occurs name items)
    (defaultValue : Value platform) : given items name defaultValue = none := by
  rwa [← given_isSome_iff items name defaultValue, Bool.not_eq_true, Option.isSome_eq_false_iff,
    Option.isNone_iff_eq_none] at absent

/-! ## The last call -/

/-- The last call, on the used parser and on a fresh one. -/
theorem exists_lastCall (parser : ArgumentParser platform) (memory : Memory platform)
    (earlier : List (List (Option Text))) (last : List (Option Text)) :
    ∃ items lastItems returned usedNext freshNext,
      (∀ item ∈ items ++ lastItems, item.Valid parser) ∧
      (Overwritten parser earlier last ↔
        positionals items = [] ∧ ∀ name, Occurs name items → Occurs name lastItems) ∧
      Follows (items ++ lastItems) parser usedNext ∧ Follows lastItems parser freshNext ∧
      (parser.runCalls memory earlier).1.internalParseArgs last = (returned, usedNext) ∧
      parser.internalParseArgs last = (returned, freshNext) := by
  obtain ⟨items, follows, members⟩ := runCalls_follows parser earlier (.refl parser) memory
  rw [List.nil_append] at follows
  obtain ⟨lastItems, returned, lastReads⟩ := exists_reads parser last.tail
  obtain ⟨usedNext, usedFollows, usedScanned⟩ := internalParseArgs_call (follows.reads lastReads)
  obtain ⟨freshNext, freshFollows, freshScanned⟩ := internalParseArgs_call lastReads
  refine ⟨items, lastItems, _, usedNext, freshNext, ?_, overwritten_iff members lastReads,
    follows.append usedFollows, freshFollows, usedScanned, freshScanned⟩
  intro item member
  rcases List.mem_append.mp member with before | here
  · obtain ⟨_, _, read, _, reads, inRead⟩ := (members item).mp before
    exact reads.valid item inRead
  · exact lastReads.valid item here

theorem overwritten_of_nothingSurvives {parser : ArgumentParser platform} (fresh : Fresh parser)
    {memory : Memory platform} {earlier : List (List (Option Text))} {last : List (Option Text)}
    (survives : NothingSurvives parser memory earlier last) : Overwritten parser earlier last := by
  obtain ⟨items, lastItems, returned, usedNext, freshNext, valid, overwritten, usedFollows, freshFollows,
    usedScanned, freshScanned⟩ := exists_lastCall parser memory earlier last
  have positionalArgs : usedNext.positionalArgs = freshNext.positionalArgs := by
    have seen := congrArg Outcome.positionalArgs survives
    simpa only [Result.outcome, parser_of_parseArgs, usedScanned, freshScanned] using seen
  have optionProvided : usedNext.optionProvided = freshNext.optionProvided := by
    have seen := congrArg Outcome.optionProvided survives
    simpa only [Result.outcome, parser_of_parseArgs, usedScanned, freshScanned] using seen
  refine overwritten.mpr ⟨?_, fun name occurs => ?_⟩
  · rw [usedFollows.positionalArgs, freshFollows.positionalArgs, positionals_append] at positionalArgs
    simpa using positionalArgs
  · have provided := (usedFollows.optionProvided_iff valid name).mpr
      (.inl (occurs.imp fun item there => ⟨List.mem_append_left _ there.1, there.2⟩))
    have validLast : ∀ item ∈ lastItems, item.Valid parser :=
      fun item member => valid item (List.mem_append_right _ member)
    rw [optionProvided, freshFollows.optionProvided_iff validLast, fresh.optionProvided] at provided
    exact provided.resolve_right Bool.false_ne_true

theorem nothingSurvives_of_overwritten {parser : ArgumentParser platform} (memory : Memory platform)
    {earlier : List (List (Option Text))} {last : List (Option Text)}
    (overwritten : Overwritten parser earlier last) : NothingSurvives parser memory earlier last := by
  obtain ⟨items, lastItems, returned, usedNext, freshNext, -, overwritten_iff, usedFollows, freshFollows,
    usedScanned, freshScanned⟩ := exists_lastCall parser memory earlier last
  obtain ⟨noPositional, again⟩ := overwritten_iff.mp overwritten
  have same : usedNext = freshNext := by
    refine usedFollows.unique ?_ (fun name option found => ?_) freshFollows
    · rw [positionals_append, noPositional, List.nil_append]
    · rw [given_append]
      by_cases occurs : Occurs name lastItems
      · rw [Option.or_of_isSome ((given_isSome_iff ..).mpr occurs)]
      · rw [given_eq_none fun before => occurs (again name before), Option.or_none]
  subst same
  exact congrArg Result.outcome (parseArgs_congr (usedScanned.trans freshScanned.symm) _)

theorem nothingSurvives_iff {parser : ArgumentParser platform} (fresh : Fresh parser)
    (memory : Memory platform) (earlier : List (List (Option Text))) (last : List (Option Text)) :
    NothingSurvives parser memory earlier last ↔ Overwritten parser earlier last :=
  ⟨overwritten_of_nothingSurvives fresh, nothingSurvives_of_overwritten memory⟩

def nameParameters : List (Parameter integerPlatform) := [⟨"name".toList, 'n', true, .string [], some 0⟩]

def namedArgv : List (Option Text) := [some "program".toList, some "--name".toList, some "x".toList]

def unnamedArgv : List (Option Text) := [some "program".toList]

theorem named_reads (value : Text) : Reads (register nameParameters 0)
    [some "--name".toList, some value] [.valued "name".toList "--name".toList value] (some true) := by
  exact ⟨List.forall_mem_singleton.mpr ⟨⟨by decide, by decide, .inl rfl⟩, rfl⟩, [], rfl, .done⟩

/-- A second call with the same option has the outcome of a first one. -/
theorem named_again : NothingSurvives (register nameParameters 0) blankMemory [namedArgv] namedArgv := by
  refine (nothingSurvives_iff (fresh_register nameParameters 0) blankMemory [namedArgv] namedArgv).mpr ?_
  intro argv member items returned reads
  obtain rfl := List.mem_singleton.mp member
  obtain rfl := reads.unique (named_reads "x".toList)
  refine ⟨rfl, fun name occurs lastItems lastReturned lastReads => ?_⟩
  obtain rfl := lastReads.unique (named_reads "x".toList)
  exact occurs

/-- A call without the required option, after one with it, takes the old value. -/
theorem named_survives :
    ¬ NothingSurvives (register nameParameters 0) blankMemory [namedArgv] unnamedArgv := by
  intro survives
  have overwritten := overwritten_of_nothingSurvives (fresh_register nameParameters 0) survives
  have nothing : Reads (register nameParameters 0) [] [] (some true) := ⟨nofun, [], rfl, .done⟩
  obtain ⟨-, again⟩ := overwritten namedArgv (List.mem_singleton_self _) _ _ (named_reads _)
  exact not_occurs_nil _ (again _ ⟨_, List.mem_singleton_self _, rfl⟩ [] _ nothing)

end Snowlake.ArgumentParser
