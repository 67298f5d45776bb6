import Snowlake.Args.Calls

/-! # What a fresh parser accepts

The arguments behind the program name split into items of the registered
parameters, the required options are among them and there are enough positional
arguments.
-/

namespace Snowlake.ArgumentParser

open Writes

variable {platform : Platform}

/-- Registered parameters: names and shorthands that tell them apart, and
destinations of their own. -/
structure Distinct (parameters : List (Parameter platform)) : Prop where
  names : (parameters.map (·.name)).Nodup
  nonempty : ∀ parameter ∈ parameters, parameter.name ≠ []
  shorthands : (parameters.map (·.shorthand)).Nodup
  notDash : ∀ parameter ∈ parameters, parameter.shorthand ≠ '-'
  destinations : (parameters.filterMap (·.res)).Nodup

/-- The parser after the registrations, with one order of its tables. -/
def register (parameters : List (Parameter platform)) (minimum : Nat) : ArgumentParser platform :=
  (parameters.foldl addParameter {}).setMinimumPositionalArgsRequired minimum

/-- A parser with these registrations, whatever the order of iteration. -/
structure Registered (parameters : List (Parameter platform)) (minimum : Nat)
    (parser : ArgumentParser platform) : Prop where
  opts : parser.opts.entries.Perm (register parameters minimum).opts.entries
  shorthandMap : parser.shorthandMap.entries.Perm (register parameters minimum).shorthandMap.entries
  positionalArgs : parser.positionalArgs = []
  minimum : parser.minPositionalArgsRequired = minimum

/-- `--name`, or `-c`. -/
def Parameter.Spelled (parameter : Parameter platform) (spelling : Text) : Prop :=
  spelling = '-' :: '-' :: parameter.name ∨ spelling = ['-', parameter.shorthand]

/-- A positional argument, a boolean option, or another option with any value. -/
def Item.OfParameters (parameters : List (Parameter platform)) : Item → Prop
  | .positional text => text.head? ≠ some '-'
  | .boolean name spelling => ∃ parameter ∈ parameters, parameter.name = name ∧
      parameter.Spelled spelling ∧ parameter.defaultValue.type = .bool
  | .valued name spelling _ => ∃ parameter ∈ parameters, parameter.name = name ∧
      parameter.Spelled spelling ∧ parameter.defaultValue.type ≠ .bool

/-- The arguments split into items. -/
structure Splits (parameters : List (Parameter platform)) (args : List Text) (items : List Item) : Prop where
  valid : ∀ item ∈ items, item.OfParameters parameters
  texts : args = items.flatMap Item.texts

/-- An item, but for how its option is written. -/
def Item.unspelled : Item → Item
  | .positional text => .positional text
  | .boolean name _ => .boolean name []
  | .valued name _ value => .valued name [] value

/-! ## Registration -/

theorem foldl_addParameter (parameters : List (Parameter platform)) (parser : ArgumentParser platform)
    (names : (parameters.map (·.name)).Nodup) (shorthands : (parameters.map (·.shorthand)).Nodup)
    (newNames : ∀ parameter ∈ parameters, parameter.name ∉ parser.opts)
    (newShorthands : ∀ parameter ∈ parameters, parameter.shorthand ∉ parser.shorthandMap) :
    (parameters.foldl addParameter parser).opts.entries =
        (parameters.map fun parameter => ⟨parameter.name, parameter.option⟩).reverse ++
          parser.opts.entries ∧
      (parameters.foldl addParameter parser).shorthandMap.entries =
        (parameters.map fun parameter => ⟨parameter.shorthand, parameter.name⟩).reverse ++
          parser.shorthandMap.entries := by
  induction parameters generalizing parser with
  | nil => exact ⟨rfl, rfl⟩
  | cons parameter parameters ih =>
      rw [List.map_cons, List.nodup_cons] at names shorthands
      rw [List.forall_mem_cons] at newNames newShorthands
      have later := ih (parser.addParameter parameter) names.2 shorthands.2 ?_ ?_
      · rw [List.foldl_cons, later.1, later.2, addParameter,
          AList.entries_insert_of_notMem newNames.1, AList.entries_insert_of_notMem newShorthands.1]
        simp
      · intro other member known
        rcases (AList.mem_insert _).mp known with same | old
        · exact names.1 (same ▸ List.mem_map_of_mem member)
        · exact newNames.2 other member old
      · intro other member known
        rcases (AList.mem_insert _).mp known with same | old
        · exact shorthands.1 (same ▸ List.mem_map_of_mem member)
        · exact newShorthands.2 other member old

section Registered

variable {parameters : List (Parameter platform)} {minimum : Nat} {parser : ArgumentParser platform}

theorem Registered.entries_of_nodup (registered : Registered parameters minimum parser)
    (names : (parameters.map (·.name)).Nodup) (shorthands : (parameters.map (·.shorthand)).Nodup) :
    parser.opts.entries.Perm (parameters.map fun parameter => ⟨parameter.name, parameter.option⟩) ∧
      parser.shorthandMap.entries.Perm
        (parameters.map fun parameter => ⟨parameter.shorthand, parameter.name⟩) := by
  obtain ⟨opts, shorthandMap⟩ := foldl_addParameter parameters {} names shorthands
    (fun _ _ => AList.notMem_empty _) (fun _ _ => AList.notMem_empty _)
  constructor
  · refine registered.opts.trans ?_
    rw [register, setMinimumPositionalArgsRequired, opts, AList.empty_entries, List.append_nil]
    exact List.reverse_perm _
  · refine registered.shorthandMap.trans ?_
    rw [register, setMinimumPositionalArgsRequired, shorthandMap, AList.empty_entries, List.append_nil]
    exact List.reverse_perm _

theorem Registered.entries (registered : Registered parameters minimum parser)
    (distinct : Distinct parameters) :
    parser.opts.entries.Perm (parameters.map fun parameter => ⟨parameter.name, parameter.option⟩) ∧
      parser.shorthandMap.entries.Perm
        (parameters.map fun parameter => ⟨parameter.shorthand, parameter.name⟩) :=
  registered.entries_of_nodup distinct.names distinct.shorthands

/-- The options are those of the parameters. -/
theorem Registered.lookup_iff (registered : Registered parameters minimum parser)
    (distinct : Distinct parameters) {name : Text} {option : CmdlOption platform} :
    parser.opts.lookup name = some option ↔
      ∃ parameter ∈ parameters, parameter.name = name ∧ parameter.option = option := by
  refine AList.mem_lookup_iff.trans (((registered.entries distinct).1.mem_iff).trans ?_)
  simp

theorem Registered.lookup_shorthand_iff (registered : Registered parameters minimum parser)
    (distinct : Distinct parameters) {c : Char} {name : Text} :
    parser.shorthandMap.lookup c = some name ↔
      ∃ parameter ∈ parameters, parameter.shorthand = c ∧ parameter.name = name := by
  refine AList.mem_lookup_iff.trans (((registered.entries distinct).2.mem_iff).trans ?_)
  simp

/-- Names and shorthands that tell the parameters apart are enough for the checks on shorthands. -/
theorem Registered.consistent_of_nodup (registered : Registered parameters minimum parser)
    (names : (parameters.map (·.name)).Nodup) (shorthands : (parameters.map (·.shorthand)).Nodup) :
    parser.Consistent := by
  obtain ⟨opts, shorthandMap⟩ := registered.entries_of_nodup names shorthands
  constructor
  · rw [opts.length_eq, shorthandMap.length_eq, List.length_map, List.length_map]
  · intro c name found
    have entry := shorthandMap.mem_iff.mp (AList.mem_lookup_iff.mp found)
    obtain ⟨parameter, member, same⟩ := List.mem_map.mp entry
    cases same
    refine ⟨parameter.option, ?_, rfl⟩
    exact AList.mem_lookup_iff.mpr (opts.mem_iff.mpr (List.mem_map.mpr ⟨parameter, member, rfl⟩))

theorem Registered.consistent (registered : Registered parameters minimum parser)
    (distinct : Distinct parameters) : parser.Consistent :=
  registered.consistent_of_nodup distinct.names distinct.shorthands

theorem Registered.option (registered : Registered parameters minimum parser)
    (distinct : Distinct parameters) {parameter : Parameter platform} (member : parameter ∈ parameters) :
    parser.opts.lookup parameter.name = some parameter.option :=
  (registered.lookup_iff distinct).mpr ⟨parameter, member, rfl, rfl⟩

/-- An option is spelled as its parameter is. -/
theorem Registered.spells_iff (registered : Registered parameters minimum parser)
    (distinct : Distinct parameters) (name spelling : Text) :
    parser.Spells name spelling ↔
      ∃ parameter ∈ parameters, parameter.name = name ∧ parameter.Spelled spelling := by
  constructor
  · intro ⟨_, known, spelled⟩
    rcases spelled with long | ⟨c, -, short, found⟩
    · obtain ⟨option, found⟩ := Option.isSome_iff_exists.mp (AList.lookup_isSome.mpr known)
      obtain ⟨parameter, member, rfl, -⟩ := (registered.lookup_iff distinct).mp found
      exact ⟨parameter, member, rfl, .inl long⟩
    · obtain ⟨parameter, member, rfl, same⟩ := (registered.lookup_shorthand_iff distinct).mp found
      exact ⟨parameter, member, same, .inr short⟩
  · intro ⟨parameter, member, same, spelled⟩
    subst same
    have found := registered.option distinct member
    refine ⟨distinct.nonempty parameter member, AList.lookup_isSome.mp (found ▸ rfl), ?_⟩
    rcases spelled with long | short
    · exact .inl long
    · exact .inr ⟨parameter.shorthand, distinct.notDash parameter member, short,
        (registered.lookup_shorthand_iff distinct).mpr ⟨parameter, member, rfl, rfl⟩⟩

theorem Registered.definedBooleanOption (registered : Registered parameters minimum parser)
    (distinct : Distinct parameters) {parameter : Parameter platform} (member : parameter ∈ parameters) :
    parser.definedBooleanOption parameter.name = decide (parameter.defaultValue.type = .bool) := by
  rw [ArgumentParser.definedBooleanOption, registered.option distinct member]
  rfl

theorem Registered.valid_iff (registered : Registered parameters minimum parser)
    (distinct : Distinct parameters) (item : Item) : item.Valid parser ↔ item.OfParameters parameters := by
  have option_iff (name spelling : Text) (isBool : Bool) :
      parser.Spells name spelling ∧ parser.definedBooleanOption name = isBool ↔
        ∃ parameter ∈ parameters, parameter.name = name ∧ parameter.Spelled spelling ∧
          decide (parameter.defaultValue.type = .bool) = isBool := by
    rw [registered.spells_iff distinct]
    constructor
    · intro ⟨⟨parameter, member, same, spelled⟩, kind⟩
      rw [← same, registered.definedBooleanOption distinct member] at kind
      exact ⟨parameter, member, same, spelled, kind⟩
    · intro ⟨parameter, member, same, spelled, kind⟩
      refine ⟨⟨parameter, member, same, spelled⟩, ?_⟩
      rw [← same, registered.definedBooleanOption distinct member, kind]
  cases item with
  | positional => exact Iff.rfl
  | boolean name spelling =>
      refine (option_iff name spelling true).trans ?_
      simp only [decide_eq_true_eq, Item.OfParameters]
  | valued name spelling value =>
      refine (option_iff name spelling false).trans ?_
      simp only [decide_eq_false_iff_not, Item.OfParameters, ne_eq]

theorem Registered.splits_iff (registered : Registered parameters minimum parser)
    (distinct : Distinct parameters) (args : List Text) (items : List Item) :
    Splits parameters args items ↔ Reads parser (args.map some) items (some true) := by
  constructor
  · intro splits
    refine ⟨fun item member => (registered.valid_iff distinct item).mpr (splits.valid item member), [], ?_, .done⟩
    rw [splits.texts, List.append_nil]
  · intro reads
    obtain ⟨rest, same, stops⟩ := reads.split
    cases stops
    rw [List.append_nil] at same
    exact ⟨fun item member => (registered.valid_iff distinct item).mp (reads.valid item member),
      (List.map_inj_right fun _ _ => Option.some.inj).mp same⟩

/-- The checks of a fresh parser. -/
theorem Registered.accepts_iff (registered : Registered parameters minimum parser)
    (distinct : Distinct parameters) (items : List Item) :
    Accepts parser items ↔
      (∀ parameter ∈ parameters, parameter.required = true → Occurs parameter.name items) ∧
        minimum ≤ (positionals items).length := by
  constructor
  · intro accepts
    refine ⟨fun parameter member isRequired => ?_, ?_⟩
    · exact (accepts.required _ _ (registered.option distinct member) isRequired).resolve_right nofun
    · simpa [registered.positionalArgs, registered.minimum] using accepts.minimum
  · intro ⟨required, enough⟩
    refine ⟨registered.consistent distinct, ?_, fun name option found isRequired => ?_⟩
    · simpa [registered.positionalArgs, registered.minimum] using enough
    · obtain ⟨parameter, member, rfl, rfl⟩ := (registered.lookup_iff distinct).mp found
      exact .inl (required parameter member isRequired)

theorem Registered.optionProvided (registered : Registered parameters minimum parser)
    (distinct : Distinct parameters) (name : Text) : parser.optionProvided name = false := by
  rw [ArgumentParser.optionProvided]
  cases found : parser.opts.lookup name with
  | none => rfl
  | some option =>
      obtain ⟨parameter, -, -, rfl⟩ := (registered.lookup_iff distinct).mp found
      rfl

theorem Registered.destinations (registered : Registered parameters minimum parser)
    (distinct : Distinct parameters) : (parser.writes.map (·.1)).Nodup := by
  have perm : (parser.writes.map (·.1)).Perm (parameters.filterMap (·.res)) := by
    rw [writes, List.map_filterMap]
    refine ((registered.entries distinct).1.filterMap _).trans ?_
    rw [List.filterMap_map]
    refine List.Perm.of_eq (List.filterMap_congr fun parameter _ => ?_)
    cases res : parameter.res <;> simp [CmdlOption.write, Parameter.option, res]
  exact perm.nodup_iff.mpr distinct.destinations

end Registered

/-- What is written to a destination of its own. -/
theorem Follows.written {items : List Item} {parser next : ArgumentParser platform}
    (follows : Follows items parser next) (destinations : (parser.writes.map (·.1)).Nodup)
    {name : Text} {option : CmdlOption platform} (found : parser.opts.lookup name = some option)
    {address : Address} (dst : option.dst = some address) (memory : Memory platform) :
    writeAll memory next.writes address =
      ((given items name option.defaultValue).or option.value).getD option.defaultValue := by
  obtain ⟨after, foundAfter, same⟩ := follows.option name option found
  have member : (address, after.assigned) ∈ next.writes := by
    refine List.mem_filterMap.mpr ⟨⟨name, after⟩, AList.mem_lookup_iff.mp foundAfter, ?_⟩
    rw [CmdlOption.write, same.dst, dst]
    rfl
  rw [writeAll_of_mem (follows.destinations ▸ destinations) member, CmdlOption.assigned, same.value,
    same.defaultValue]

theorem positionals_unspelled (items : List Item) :
    positionals (items.map Item.unspelled) = positionals items := by
  rw [positionals, List.filterMap_map]
  refine List.filterMap_congr fun item _ => ?_
  cases item <;> rfl

theorem given_unspelled (items : List Item) (name : Text) (defaultValue : Value platform) :
    given (items.map Item.unspelled) name defaultValue = given items name defaultValue := by
  rw [given, given, List.filterMap_map]
  congr 1
  refine List.filterMap_congr fun item _ => ?_
  cases item <;> rfl

/-- What a call returns and leaves depends on what the loop does. -/
theorem parseArgs_congr {parser other : ArgumentParser platform} {argv otherArgv : List (Option Text)}
    (same : parser.internalParseArgs argv = other.internalParseArgs otherArgv) (memory : Memory platform) :
    parser.parseArgs argv memory = other.parseArgs otherArgv memory := by
  rw [parseArgs, parseArgs, same]

/-! ## The specification -/

/-- The command line is a program name and the items, with what is required. -/
structure Satisfies (parameters : List (Parameter platform)) (minimum : Nat) (argv : List Text)
    (items : List Item) : Prop where
  splits : ∃ program args, argv = program :: args ∧ Splits parameters args items
  required : ∀ parameter ∈ parameters, parameter.required = true → Occurs parameter.name items
  minimum : minimum ≤ (positionals items).length

/-- The positional items in order, the options that occur, and for each of them
the conversion of its last value, or its default. -/
structure Assigns (parameters : List (Parameter platform)) (items : List Item) (result : Result platform) :
    Prop where
  positionalArgs : result.parser.positionalArgs = positionals items
  optionProvided : ∀ name, result.parser.optionProvided name = true ↔ Occurs name items
  destinations : ∀ parameter ∈ parameters, ∀ address, parameter.res = some address →
    result.memory address = (given items parameter.name parameter.defaultValue).getD parameter.defaultValue

section

variable {parameters : List (Parameter platform)} {minimum : Nat} {parser : ArgumentParser platform}

/-- No null pointer is made a string. -/
theorem parseArgs_isSome (argv : List Text) (memory : Memory platform) :
    (parser.parseArgs (argv.map some) memory).returned.isSome = true := by
  cases argv with
  | nil => rfl
  | cons program args =>
      obtain ⟨items, returned, reads⟩ := exists_reads parser (args.map some)
      have isSome : returned.isSome = true := by
        obtain ⟨rest, same, stops⟩ := reads.split
        cases stops with
        | nullValue =>
            have isNone : none ∈ args.map some := same ▸ List.mem_append_right _ (by simp)
            obtain ⟨_, _, isSome⟩ := List.mem_map.mp isNone
            cases isSome
        | done | null | unknown | missing => rfl
      obtain ⟨next, -, scanned⟩ := internalParseArgs_reads reads (some program)
      rw [List.map_cons, parseArgs, scanned]
      simp only
      split
      · exact isSome
      · split <;> rfl

theorem parseArgs_satisfies_iff (distinct : Distinct parameters)
    (registered : Registered parameters minimum parser) (memory : Memory platform) (argv : List Text) :
    (parser.parseArgs (argv.map some) memory).returned = some true ↔
      ∃ items, Satisfies parameters minimum argv items := by
  cases argv with
  | nil =>
      constructor
      · intro refused
        cases refused
      · intro ⟨items, ⟨program, args, same, _⟩, _, _⟩
        cases same
  | cons program args =>
      constructor
      · intro accepted
        obtain ⟨items, returned, reads⟩ := exists_reads parser (args.map some)
        obtain ⟨rfl, accepts⟩ := (parseArgs_performs reads program memory).2.mp accepted
        obtain ⟨required, enough⟩ := (registered.accepts_iff distinct items).mp accepts
        exact ⟨items, ⟨program, args, rfl, (registered.splits_iff distinct _ _).mpr reads⟩, required, enough⟩
      · intro ⟨items, ⟨_, _, same, splits⟩, required, enough⟩
        obtain ⟨rfl, rfl⟩ := List.cons.inj same
        have reads := (registered.splits_iff distinct _ _).mp splits
        exact (parseArgs_performs reads program memory).2.mpr
          ⟨rfl, (registered.accepts_iff distinct items).mpr ⟨required, enough⟩⟩

theorem parseArgs_assigns (distinct : Distinct parameters)
    (registered : Registered parameters minimum parser) (memory : Memory platform) {argv : List Text}
    {items : List Item} (satisfies : Satisfies parameters minimum argv items) :
    Assigns parameters items (parser.parseArgs (argv.map some) memory) := by
  obtain ⟨⟨program, args, rfl, splits⟩, required, enough⟩ := satisfies
  have reads := (registered.splits_iff distinct _ _).mp splits
  obtain ⟨performs, accepted⟩ := parseArgs_performs reads program memory
  have returned := accepted.mpr ⟨rfl, (registered.accepts_iff distinct items).mpr ⟨required, enough⟩⟩
  refine ⟨?_, fun name => ?_, fun parameter member address res => ?_⟩
  · exact performs.follows.positionalArgs.trans (by rw [registered.positionalArgs, List.nil_append])
  · refine (performs.follows.optionProvided_iff reads.valid name).trans (or_iff_left ?_)
    rw [registered.optionProvided distinct]
    exact Bool.false_ne_true
  · rw [List.map_cons, performs.written returned, performs.follows.written
      (registered.destinations distinct) (registered.option distinct member) res]
    exact congrArg (Option.getD · _) Option.or_none

/-- Two spellings of one command line have the same result. -/
theorem parseArgs_respelled (distinct : Distinct parameters)
    (registered : Registered parameters minimum parser) (memory : Memory platform)
    {program : Text} {args otherArgs : List Text} {items otherItems : List Item}
    (splits : Splits parameters args items) (otherSplits : Splits parameters otherArgs otherItems)
    (same : items.map Item.unspelled = otherItems.map Item.unspelled) :
    parser.parseArgs ((program :: args).map some) memory =
      parser.parseArgs ((program :: otherArgs).map some) memory := by
  have positional : positionals items = positionals otherItems := by
    rw [← positionals_unspelled, same, positionals_unspelled]
  have values (name : Text) (defaultValue : Value platform) :
      given items name defaultValue = given otherItems name defaultValue := by
    rw [← given_unspelled, same, given_unspelled]
  obtain ⟨next, follows, scanned⟩ :=
    internalParseArgs_reads ((registered.splits_iff distinct _ _).mp splits) (some program)
  obtain ⟨otherNext, otherFollows, otherScanned⟩ :=
    internalParseArgs_reads ((registered.splits_iff distinct _ _).mp otherSplits) (some program)
  obtain rfl := follows.unique positional
    (fun name option _ => by rw [values name option.defaultValue]) otherFollows
  exact parseArgs_congr (scanned.trans otherScanned.symm) memory

/-- `parseArgs` on a fresh parser returns, and it returns true on the command lines
of the specification; then it assigns what they say, in whatever way the options
are written. -/
theorem parseArgs_specification (distinct : Distinct parameters)
    (registered : Registered parameters minimum parser) (memory : Memory platform) (argv : List Text) :
    (parser.parseArgs (argv.map some) memory).returned.isSome = true ∧
      ((parser.parseArgs (argv.map some) memory).returned = some true ↔
        ∃ items, Satisfies parameters minimum argv items) ∧
      (∀ items, Satisfies parameters minimum argv items →
        Assigns parameters items (parser.parseArgs (argv.map some) memory)) ∧
      ∀ program args items otherArgs otherItems, argv = program :: args →
        Splits parameters args items → Splits parameters otherArgs otherItems →
          items.map Item.unspelled = otherItems.map Item.unspelled →
            parser.parseArgs ((program :: otherArgs).map some) memory =
              parser.parseArgs (argv.map some) memory := by
  refine ⟨parseArgs_isSome argv memory, parseArgs_satisfies_iff distinct registered memory argv, ?_, ?_⟩
  · exact fun items satisfies => parseArgs_assigns distinct registered memory satisfies
  · intro program args items otherArgs otherItems split splits otherSplits same
    rw [split]
    exact (parseArgs_respelled distinct registered memory splits otherSplits same).symm

end

/-- A platform without fractions. -/
def integerPlatform : Platform where
  Float := Int
  Double := Int
  extractBool := fun text => text == ['1']
  extractFloat := fun text => Nat.ofDigitChars 10 text 0
  extractDouble := fun text => Nat.ofDigitChars 10 text 0
  uninitializedUint32 := 0
  uninitializedUint64 := 0

def blankMemory : Memory integerPlatform := fun _ => .string []

def sampleParameters : List (Parameter integerPlatform) := [
  ⟨"output".toList, 'o', true, .string [], some 0⟩,
  ⟨"verbose".toList, 'v', false, .bool false, some 1⟩]

def sampleItems : List Item := [
  .boolean "verbose".toList "--verbose".toList,
  .valued "output".toList "-o".toList "-v".toList,
  .positional "input".toList]

def sampleArgv : List Text := ["program".toList, "--verbose".toList, "-o".toList, "-v".toList, "input".toList]

/-- A value that looks like an option is a value. -/
theorem sampleParameters_specification :
    ((register sampleParameters 1).parseArgs (sampleArgv.map some) blankMemory).returned = some true ∧
      Assigns sampleParameters sampleItems
        ((register sampleParameters 1).parseArgs (sampleArgv.map some) blankMemory) := by
  have distinct : Distinct sampleParameters := by
    constructor <;> decide
  have registered : Registered sampleParameters 1 (register sampleParameters 1) :=
    ⟨.rfl, .rfl, rfl, rfl⟩
  have items : ∀ item ∈ sampleItems, item.OfParameters sampleParameters := by
    simp only [sampleItems, List.forall_mem_cons]
    refine ⟨⟨_, List.mem_cons_of_mem _ List.mem_cons_self, rfl, .inl rfl, rfl⟩,
      ⟨_, List.mem_cons_self, rfl, .inr rfl, nofun⟩, ?_, nofun⟩
    exact show "input".toList.head? ≠ some '-' by decide
  have satisfies : Satisfies sampleParameters 1 sampleArgv sampleItems := by
    refine ⟨⟨_, _, rfl, items, rfl⟩, ?_, Nat.le_refl _⟩
    simp only [sampleParameters, List.forall_mem_cons]
    exact ⟨fun _ => ⟨_, List.mem_cons_of_mem _ List.mem_cons_self, rfl⟩, nofun, nofun⟩
  obtain ⟨-, accepted, assigns, -⟩ :=
    parseArgs_specification distinct registered blankMemory sampleArgv
  exact ⟨accepted.mpr ⟨sampleItems, satisfies⟩, assigns sampleItems satisfies⟩

end Snowlake.ArgumentParser
