import Snowlake.Args.ArgumentParser

/-! # Items

The loop of `__parseArgs` reads items from `argv`, each an argument or an option
with its value, until it stops.  What it reads depends on the registered
parameters only; what the items leave behind is their positional arguments and
the last value of each option.
-/

namespace Snowlake.ArgumentParser

variable {platform : Platform}

inductive Item where
  | positional (text : Text)
  | boolean (name spelling : Text)
  | valued (name spelling value : Text)

namespace Item

def texts : Item → List Text
  | .positional text => [text]
  | .boolean _ spelling => [spelling]
  | .valued _ spelling value => [spelling, value]

/-- The option of an item. -/
def name? : Item → Option Text
  | .positional _ => none
  | .boolean name _ => some name
  | .valued name _ _ => some name

def positional? : Item → Option Text
  | .positional text => some text
  | _ => none

/-- What an item makes of an option, whose default value has its type. -/
def value? (name : Text) (defaultValue : Value platform) : Item → Option (Value platform)
  | .positional _ => none
  | .boolean other _ => if other = name then some (.bool true) else none
  | .valued other _ text => if other = name then some (defaultValue.cast text) else none

end Item

def positionals (items : List Item) : List Text := items.filterMap Item.positional?

def Occurs (name : Text) (items : List Item) : Prop := ∃ item ∈ items, item.name? = some name

/-- The last value of an option. -/
def given (items : List Item) (name : Text) (defaultValue : Value platform) : Option (Value platform) :=
  (items.filterMap (Item.value? name defaultValue)).getLast?

/-- How an option is written: `--name`, or `-c` with its shorthand. -/
def Spells (parser : ArgumentParser platform) (name spelling : Text) : Prop :=
  name ≠ [] ∧ name ∈ parser.opts ∧ (spelling = '-' :: '-' :: name ∨
    ∃ c, c ≠ '-' ∧ spelling = ['-', c] ∧ parser.shorthandMap.lookup c = some name)

def Item.Valid (parser : ArgumentParser platform) : Item → Prop
  | .positional text => text.head? ≠ some '-'
  | .boolean name spelling => parser.Spells name spelling ∧ parser.definedBooleanOption name = true
  | .valued name spelling _ => parser.Spells name spelling ∧ parser.definedBooleanOption name = false

theorem Item.known_of_valid {parser : ArgumentParser platform} {item : Item} {name : Text}
    (valid : item.Valid parser) (named : item.name? = some name) : name ∈ parser.opts := by
  cases item with
  | positional => cases named
  | boolean | valued => exact Option.some.inj named ▸ valid.1.2.1

/-- Where the loop stops, and what it returns there. -/
inductive Stops (parser : ArgumentParser platform) : List (Option Text) → Option Bool → Prop
  | done : Stops parser [] (some true)
  | null {rest} : Stops parser (none :: rest) (some false)
  | unknown {arg rest} : arg.head? = some '-' → (∀ name, ¬ parser.Spells name arg) →
      Stops parser (some arg :: rest) (some false)
  | missing {name arg} : parser.Spells name arg → parser.definedBooleanOption name = false →
      Stops parser [some arg] (some false)
  | nullValue {name arg rest} : parser.Spells name arg → parser.definedBooleanOption name = false →
      Stops parser (some arg :: none :: rest) none

/-- The items that the loop reads before it stops. -/
structure Reads (parser : ArgumentParser platform) (argv : List (Option Text)) (items : List Item)
    (returned : Option Bool) : Prop where
  valid : ∀ item ∈ items, item.Valid parser
  split : ∃ rest, argv = (items.flatMap Item.texts).map some ++ rest ∧ Stops parser rest returned

/-! ## What items leave behind -/

theorem given_append (first second : List Item) (name : Text) (defaultValue : Value platform) :
    given (first ++ second) name defaultValue =
      (given second name defaultValue).or (given first name defaultValue) := by
  rw [given, List.filterMap_append, List.getLast?_append]
  rfl

theorem given_isSome_iff (items : List Item) (name : Text) (defaultValue : Value platform) :
    (given items name defaultValue).isSome = true ↔ Occurs name items := by
  have named (item : Item) : (item.value? name defaultValue).isSome = true ↔ item.name? = some name := by
    cases item with
    | positional => simp [Item.value?, Item.name?]
    | boolean other | valued other => by_cases same : other = name <;> simp [Item.value?, Item.name?, same]
  rw [given, List.getLast?_isSome, Ne, List.filterMap_eq_nil_iff]
  simp only [not_forall, ← named, Option.isSome_iff_ne_none, Occurs, exists_prop, Ne]

/-- An option after the items, as one before them. -/
structure CmdlOption.Follows (items : List Item) (name : Text) (option next : CmdlOption platform) : Prop where
  shorthand : next.shorthand = option.shorthand
  required : next.required = option.required
  defaultValue : next.defaultValue = option.defaultValue
  dst : next.dst = option.dst
  value : next.value = (given items name option.defaultValue).or option.value

/-- A parser after the items. -/
structure Follows (items : List Item) (parser next : ArgumentParser platform) : Prop where
  keys : next.opts.keys = parser.opts.keys
  shorthandMap : next.shorthandMap = parser.shorthandMap
  positionalArgs : next.positionalArgs = parser.positionalArgs ++ positionals items
  minimum : next.minPositionalArgsRequired = parser.minPositionalArgsRequired
  option : ∀ name option, parser.opts.lookup name = some option →
    ∃ after, next.opts.lookup name = some after ∧ option.Follows items name after

theorem positionals_append (first second : List Item) :
    positionals (first ++ second) = positionals first ++ positionals second :=
  List.filterMap_append

theorem CmdlOption.Follows.append {first second : List Item} {name : Text}
    {option middle next : CmdlOption platform} (before : option.Follows first name middle)
    (after : middle.Follows second name next) : option.Follows (first ++ second) name next where
  shorthand := after.shorthand.trans before.shorthand
  required := after.required.trans before.required
  defaultValue := after.defaultValue.trans before.defaultValue
  dst := after.dst.trans before.dst
  value := by
    rw [after.value, before.value, before.defaultValue, given_append, Option.or_assoc]

namespace Follows

theorem refl (parser : ArgumentParser platform) : Follows [] parser parser where
  keys := rfl
  shorthandMap := rfl
  positionalArgs := (List.append_nil _).symm
  minimum := rfl
  option := fun _ option found => ⟨option, found, rfl, rfl, rfl, rfl, rfl⟩

theorem append {first second : List Item} {parser middle next : ArgumentParser platform}
    (before : Follows first parser middle) (after : Follows second middle next) :
    Follows (first ++ second) parser next where
  keys := after.keys.trans before.keys
  shorthandMap := after.shorthandMap.trans before.shorthandMap
  positionalArgs := by
    rw [after.positionalArgs, before.positionalArgs, positionals_append, List.append_assoc]
  minimum := after.minimum.trans before.minimum
  option := by
    intro name option found
    obtain ⟨between, foundBetween, followsBetween⟩ := before.option name option found
    obtain ⟨last, foundLast, followsLast⟩ := after.option name between foundBetween
    exact ⟨last, foundLast, followsBetween.append followsLast⟩

theorem mem_iff {items : List Item} {parser next : ArgumentParser platform}
    (follows : Follows items parser next) (name : Text) : name ∈ next.opts ↔ name ∈ parser.opts := by
  rw [AList.mem_keys, AList.mem_keys, follows.keys]

theorem lookup_none {items : List Item} {parser next : ArgumentParser platform}
    (follows : Follows items parser next) {name : Text} (unknown : parser.opts.lookup name = none) :
    next.opts.lookup name = none := by
  rw [AList.lookup_eq_none] at unknown ⊢
  rwa [follows.mem_iff]

/-- The state after items is known from the state before and from what the items
leave behind. -/
theorem unique {items other : List Item} {parser next otherNext : ArgumentParser platform}
    (positional : positionals items = positionals other)
    (values : ∀ name option, parser.opts.lookup name = some option →
      (given items name option.defaultValue).or option.value =
        (given other name option.defaultValue).or option.value)
    (follows : Follows items parser next) (otherFollows : Follows other parser otherNext) :
    next = otherNext := by
  have opts : next.opts = otherNext.opts := by
    refine Table.ext_lookup (follows.keys.trans otherFollows.keys.symm) fun name => ?_
    cases found : parser.opts.lookup name with
    | none => rw [follows.lookup_none found, otherFollows.lookup_none found]
    | some option =>
        obtain ⟨after, foundAfter, same⟩ := follows.option name option found
        obtain ⟨otherAfter, foundOther, otherSame⟩ := otherFollows.option name option found
        rw [foundAfter, foundOther, Option.some_inj]
        refine CmdlOption.ext (same.shorthand.trans otherSame.shorthand.symm)
          (same.required.trans otherSame.required.symm)
          (same.defaultValue.trans otherSame.defaultValue.symm) ?_ (same.dst.trans otherSame.dst.symm)
        rw [same.value, otherSame.value, values name option found]
  have shorthandMap := follows.shorthandMap.trans otherFollows.shorthandMap.symm
  have minimum := follows.minimum.trans otherFollows.minimum.symm
  have positionalArgs : next.positionalArgs = otherNext.positionalArgs := by
    rw [follows.positionalArgs, otherFollows.positionalArgs, positional]
  cases next
  cases otherNext
  cases opts
  cases shorthandMap
  cases minimum
  cases positionalArgs
  rfl

theorem optionProvided_iff {items : List Item} {parser next : ArgumentParser platform}
    (follows : Follows items parser next) (valid : ∀ item ∈ items, item.Valid parser) (name : Text) :
    next.optionProvided name = true ↔ Occurs name items ∨ parser.optionProvided name = true := by
  rw [ArgumentParser.optionProvided, ArgumentParser.optionProvided]
  cases found : parser.opts.lookup name with
  | none =>
      rw [follows.lookup_none found]
      simp only [Bool.false_eq_true, or_false, false_iff]
      intro ⟨item, member, named⟩
      have known := Item.known_of_valid (valid item member) named
      rw [AList.lookup_eq_none] at found
      exact found known
  | some option =>
      obtain ⟨after, foundAfter, same⟩ := follows.option name option found
      rw [foundAfter]
      simp only [same.value, Option.isSome_or, Bool.or_eq_true, given_isSome_iff]

end Follows

/-! ## One item -/

theorem Follows.positional (parser : ArgumentParser platform) (text : Text) :
    Follows [.positional text] parser (parser.addPositionalParameter text) where
  keys := rfl
  shorthandMap := rfl
  positionalArgs := rfl
  minimum := rfl
  option := fun _ option found => ⟨option, found, rfl, rfl, rfl, rfl, rfl⟩

/-- An option that is given a value, the others kept. -/
theorem Follows.update {parser : ArgumentParser platform} {item : Item} {name : Text}
    {option next : CmdlOption platform} (found : parser.opts.lookup name = some option)
    (named : item.name? = some name) (follows : option.Follows [item] name next) :
    Follows [item] parser (parser.updateOption name next) where
  keys := AList.keys_replace ..
  shorthandMap := rfl
  positionalArgs := by
    cases item with
    | positional => cases named
    | boolean | valued => exact (List.append_nil _).symm
  minimum := rfl
  option := by
    intro other otherOption foundOther
    by_cases same : other = name
    · subst same
      obtain rfl := Option.some.inj (found.symm.trans foundOther)
      exact ⟨next, Table.lookup_replace (AList.lookup_isSome.mp (found ▸ rfl)) next, follows⟩
    · refine ⟨otherOption, (Table.lookup_replace_ne same _ _).trans foundOther, rfl, rfl, rfl, rfl, ?_⟩
      have unnamed : ¬ Occurs other [item] := by
        simp only [Occurs, List.mem_singleton, exists_eq_left, named]
        exact fun isName => same (Option.some.inj isName).symm
      rw [← given_isSome_iff [item] other otherOption.defaultValue, Bool.not_eq_true,
        Option.isSome_eq_false_iff, Option.isNone_iff_eq_none] at unnamed
      rw [unnamed]
      rfl

theorem registerCmdlOption_boolean {parser : ArgumentParser platform} {name spelling : Text}
    (spells : parser.Spells name spelling) (isBoolean : parser.definedBooleanOption name = true) :
    ∃ next, Follows [.boolean name spelling] parser next ∧
      ∀ argv, parser.registerCmdlOption name argv = ⟨some true, argv, next⟩ := by
  obtain ⟨nonempty, known, -⟩ := spells
  obtain ⟨option, found⟩ := Option.isSome_iff_exists.mp (AList.lookup_isSome.mpr known)
  have isBool : option.defaultValue.type = .bool := by
    simpa [definedBooleanOption, found] using isBoolean
  refine ⟨parser.updateOption name (option.setTrue isBool), .update found rfl ?_, ?_⟩
  · exact ⟨rfl, rfl, rfl, rfl, by simp [CmdlOption.setTrue, given, Item.value?]⟩
  · intro argv
    rw [registerCmdlOption, if_neg nonempty, found]
    exact dif_pos isBool

theorem registerCmdlOption_valued {parser : ArgumentParser platform} {name spelling : Text}
    (spells : parser.Spells name spelling) (notBoolean : parser.definedBooleanOption name = false)
    (value : Text) :
    ∃ next, Follows [.valued name spelling value] parser next ∧
      ∀ arg rest, parser.registerCmdlOption name (arg :: some value :: rest) =
        ⟨some true, some value :: rest, next⟩ := by
  obtain ⟨nonempty, known, -⟩ := spells
  obtain ⟨option, found⟩ := Option.isSome_iff_exists.mp (AList.lookup_isSome.mpr known)
  have notBool : option.defaultValue.type ≠ .bool := by
    simpa [definedBooleanOption, found] using notBoolean
  refine ⟨parser.updateOption name (option.updateValue value), .update found rfl ?_, ?_⟩
  · exact ⟨rfl, rfl, rfl, rfl, by simp [CmdlOption.updateValue, given, Item.value?]⟩
  · intro arg rest
    rw [registerCmdlOption, if_neg nonempty, found]
    exact dif_neg notBool

/-- An option without the value it needs. -/
theorem registerCmdlOption_missing {parser : ArgumentParser platform} {name spelling : Text}
    (spells : parser.Spells name spelling) (notBoolean : parser.definedBooleanOption name = false)
    (arg : Option Text) :
    parser.registerCmdlOption name [arg] = ⟨some false, [], parser⟩ ∧
      ∀ rest, parser.registerCmdlOption name (arg :: none :: rest) = ⟨none, none :: rest, parser⟩ := by
  obtain ⟨nonempty, known, -⟩ := spells
  obtain ⟨option, found⟩ := Option.isSome_iff_exists.mp (AList.lookup_isSome.mpr known)
  have notBool : option.defaultValue.type ≠ .bool := by
    simpa [definedBooleanOption, found] using notBoolean
  constructor
  · rw [registerCmdlOption, if_neg nonempty, found]
    exact dif_neg notBool
  · intro rest
    rw [registerCmdlOption, if_neg nonempty, found]
    exact dif_neg notBool

/-- A name that is not registered is refused. -/
theorem registerCmdlOption_unknown {parser : ArgumentParser platform} {name : Text}
    (unknown : ¬ (name ≠ [] ∧ name ∈ parser.opts)) (argv : List (Option Text)) :
    parser.registerCmdlOption name argv = ⟨some false, argv, parser⟩ := by
  rw [registerCmdlOption]
  split
  · rfl
  · have absent : parser.opts.lookup name = none :=
      AList.lookup_eq_none.mpr fun known => unknown ⟨‹_›, known⟩
    rw [absent]

theorem parseArgsLoop_positional {parser : ArgumentParser platform} {text : Text}
    (positional : text.head? ≠ some '-') (rest : List (Option Text)) :
    parser.parseArgsLoop (some text :: rest) = (parser.addPositionalParameter text).parseArgsLoop rest := by
  rw [parseArgsLoop]
  all_goals
    intros
    subst text
    exact positional rfl

/-- The loop registers the option that is spelled. -/
theorem parseArgsLoop_spells {parser : ArgumentParser platform} {name spelling : Text}
    (spells : parser.Spells name spelling) (rest : List (Option Text)) :
    parser.parseArgsLoop (some spelling :: rest) =
      let scanned := parser.registerCmdlOption name (some spelling :: rest)
      if scanned.returned = some true then scanned.parser.parseArgsLoop scanned.argv.tail
      else (scanned.returned, scanned.parser) := by
  obtain ⟨-, -, rfl | ⟨c, notDash, rfl, found⟩⟩ := spells
  · rw [parseArgsLoop]
  · rw [parseArgsLoop, found]
    exact notDash

/-- An argument with a dash that spells no option is refused. -/
theorem parseArgsLoop_unknown {parser : ArgumentParser platform} {arg : Text}
    (dashed : arg.head? = some '-') (unknown : ∀ name, ¬ parser.Spells name arg)
    (rest : List (Option Text)) : parser.parseArgsLoop (some arg :: rest) = (some false, parser) := by
  obtain ⟨arg, rfl⟩ := List.head?_eq_some_iff.mp dashed
  cases arg with
  | nil =>
      rw [parseArgsLoop]
      · intro key same
        cases same
      · intro shorthand same
        cases same
  | cons c arg =>
      by_cases twoDashes : c = '-'
      · subst twoDashes
        have notKnown : ¬ (arg ≠ [] ∧ arg ∈ parser.opts) := fun known =>
          unknown arg ⟨known.1, known.2, .inl rfl⟩
        rw [parseArgsLoop]
        simp only [registerCmdlOption_unknown notKnown]
        rfl
      · cases arg with
        | nil =>
            rw [parseArgsLoop]
            · cases found : parser.shorthandMap.lookup c with
              | none => rfl
              | some name =>
                  have notKnown : ¬ (name ≠ [] ∧ name ∈ parser.opts) := fun known =>
                    unknown name ⟨known.1, known.2, .inr ⟨c, twoDashes, rfl, found⟩⟩
                  simp only [registerCmdlOption_unknown notKnown]
                  rfl
            · exact twoDashes
        | cons d arg =>
            rw [parseArgsLoop]
            · exact fun key same => twoDashes (List.cons.inj same).1
            · intro shorthand same
              cases same

/-! ## The loop -/

/-- One item. -/
theorem parseArgsLoop_item {parser : ArgumentParser platform} {item : Item} (valid : item.Valid parser) :
    ∃ next, Follows [item] parser next ∧ ∀ rest,
      parser.parseArgsLoop (item.texts.map some ++ rest) = next.parseArgsLoop rest := by
  cases item with
  | positional text =>
      exact ⟨parser.addPositionalParameter text, .positional parser text, parseArgsLoop_positional valid⟩
  | boolean name spelling =>
      obtain ⟨next, follows, registered⟩ := registerCmdlOption_boolean valid.1 valid.2
      refine ⟨next, follows, fun rest => (parseArgsLoop_spells valid.1 rest).trans ?_⟩
      simp only [registered]
      rfl
  | valued name spelling value =>
      obtain ⟨next, follows, registered⟩ := registerCmdlOption_valued valid.1 valid.2 value
      refine ⟨next, follows, fun rest => (parseArgsLoop_spells valid.1 (some value :: rest)).trans ?_⟩
      simp only [registered]
      rfl

/-! What is registered does not change. -/

theorem Follows.spells_iff {items : List Item} {parser next : ArgumentParser platform}
    (follows : Follows items parser next) (name spelling : Text) :
    next.Spells name spelling ↔ parser.Spells name spelling := by
  rw [Spells, Spells, follows.shorthandMap, follows.mem_iff]

theorem Follows.definedBooleanOption {items : List Item} {parser next : ArgumentParser platform}
    (follows : Follows items parser next) (name : Text) :
    next.definedBooleanOption name = parser.definedBooleanOption name := by
  rw [ArgumentParser.definedBooleanOption, ArgumentParser.definedBooleanOption]
  cases found : parser.opts.lookup name with
  | none => rw [follows.lookup_none found]
  | some option =>
      obtain ⟨after, foundAfter, same⟩ := follows.option name option found
      rw [foundAfter]
      simp only [same.defaultValue]

theorem Follows.valid_iff {items : List Item} {parser next : ArgumentParser platform}
    (follows : Follows items parser next) (item : Item) : item.Valid next ↔ item.Valid parser := by
  cases item with
  | positional => exact Iff.rfl
  | boolean | valued => rw [Item.Valid, Item.Valid, follows.spells_iff, follows.definedBooleanOption]

theorem Follows.stops {items : List Item} {parser next : ArgumentParser platform}
    (follows : Follows items parser next) {argv : List (Option Text)} {returned : Option Bool}
    (stops : Stops parser argv returned) : Stops next argv returned := by
  cases stops with
  | done => exact .done
  | null => exact .null
  | unknown dashed unknown =>
      exact .unknown dashed fun name spells => unknown name ((follows.spells_iff ..).mp spells)
  | missing spells notBoolean =>
      exact .missing ((follows.spells_iff ..).mpr spells) ((follows.definedBooleanOption _).trans notBoolean)
  | nullValue spells notBoolean =>
      exact .nullValue ((follows.spells_iff ..).mpr spells)
        ((follows.definedBooleanOption _).trans notBoolean)

/-- All items, in order. -/
theorem parseArgsLoop_items {parser : ArgumentParser platform} {items : List Item}
    (valid : ∀ item ∈ items, item.Valid parser) :
    ∃ next, Follows items parser next ∧ ∀ rest,
      parser.parseArgsLoop ((items.flatMap Item.texts).map some ++ rest) = next.parseArgsLoop rest := by
  induction items generalizing parser with
  | nil => exact ⟨parser, .refl parser, fun _ => rfl⟩
  | cons item items ih =>
      obtain ⟨middle, followsItem, loopItem⟩ := parseArgsLoop_item (valid item (by simp))
      obtain ⟨next, followsItems, loopItems⟩ := ih fun other member =>
        (followsItem.valid_iff other).mpr (valid other (List.mem_cons_of_mem _ member))
      refine ⟨next, followsItem.append followsItems, fun rest => ?_⟩
      rw [List.flatMap_cons, List.map_append, List.append_assoc, loopItem, loopItems]

theorem parseArgsLoop_stops {parser : ArgumentParser platform} {argv : List (Option Text)}
    {returned : Option Bool} (stops : Stops parser argv returned) :
    parser.parseArgsLoop argv = (returned, parser) := by
  cases stops with
  | done => rw [parseArgsLoop]
  | null => rw [parseArgsLoop]
  | unknown dashed unknown => exact parseArgsLoop_unknown dashed unknown _
  | missing spells notBoolean =>
      rw [parseArgsLoop_spells spells, (registerCmdlOption_missing spells notBoolean _).1]
      rfl
  | nullValue spells notBoolean =>
      rw [parseArgsLoop_spells spells, (registerCmdlOption_missing spells notBoolean _).2]
      rfl

theorem parseArgsLoop_reads {parser : ArgumentParser platform} {argv : List (Option Text)}
    {items : List Item} {returned : Option Bool} (reads : Reads parser argv items returned) :
    ∃ next, Follows items parser next ∧ parser.parseArgsLoop argv = (returned, next) := by
  obtain ⟨rest, rfl, stops⟩ := reads.split
  obtain ⟨next, follows, loop⟩ := parseArgsLoop_items reads.valid
  refine ⟨next, follows, (loop rest).trans (parseArgsLoop_stops (follows.stops stops))⟩

/-! ## Every `argv` is read in one way -/

theorem Reads.cons {parser : ArgumentParser platform} {item : Item} (valid : item.Valid parser)
    {argv : List (Option Text)} {items : List Item} {returned : Option Bool}
    (reads : Reads parser argv items returned) :
    Reads parser (item.texts.map some ++ argv) (item :: items) returned := by
  obtain ⟨rest, rfl, stops⟩ := reads.split
  exact ⟨List.forall_mem_cons.mpr ⟨valid, reads.valid⟩, rest, by simp, stops⟩

theorem exists_reads (parser : ArgumentParser platform) (argv : List (Option Text)) :
    ∃ items returned, Reads parser argv items returned := by
  have stopped {argv : List (Option Text)} {returned : Option Bool} (stops : Stops parser argv returned) :
      ∃ items returned, Reads parser argv items returned :=
    ⟨[], returned, nofun, argv, rfl, stops⟩
  induction size : argv.length using Nat.strongRecOn generalizing argv with
  | ind bound ih =>
      cases argv with
      | nil => exact stopped .done
      | cons arg rest =>
          rw [List.length_cons] at size
          cases arg with
          | none => exact stopped .null
          | some arg =>
              by_cases dashed : arg.head? = some '-'
              · by_cases known : ∃ name, parser.Spells name arg
                · obtain ⟨name, spells⟩ := known
                  cases isBoolean : parser.definedBooleanOption name with
                  | true =>
                      obtain ⟨items, returned, reads⟩ := ih rest.length (by omega) rest rfl
                      have valid : Item.Valid parser (.boolean name arg) := ⟨spells, isBoolean⟩
                      exact ⟨_, returned, reads.cons valid⟩
                  | false =>
                      cases rest with
                      | nil => exact stopped (.missing spells isBoolean)
                      | cons value rest =>
                          cases value with
                          | none => exact stopped (.nullValue spells isBoolean)
                          | some value =>
                              rw [List.length_cons] at size
                              obtain ⟨items, returned, reads⟩ := ih rest.length (by omega) rest rfl
                              have valid : Item.Valid parser (.valued name arg value) := ⟨spells, isBoolean⟩
                              exact ⟨_, returned, reads.cons valid⟩
                · exact stopped (.unknown dashed fun name spells => known ⟨name, spells⟩)
              · obtain ⟨items, returned, reads⟩ := ih rest.length (by omega) rest rfl
                have valid : Item.Valid parser (.positional arg) := dashed
                exact ⟨_, returned, reads.cons valid⟩

theorem Spells.dashed {parser : ArgumentParser platform} {name spelling : Text}
    (spells : parser.Spells name spelling) : spelling.head? = some '-' := by
  obtain ⟨-, -, rfl | ⟨c, -, rfl, -⟩⟩ := spells
  · rfl
  · rfl

theorem Spells.unique {parser : ArgumentParser platform} {name other spelling : Text}
    (spells : parser.Spells name spelling) (otherSpells : parser.Spells other spelling) : name = other := by
  obtain ⟨-, -, rfl | ⟨c, notDash, rfl, found⟩⟩ := spells
  · obtain ⟨-, -, same | ⟨c, notDash, same, -⟩⟩ := otherSpells
    · exact (List.cons.inj (List.cons.inj same).2).2
    · exact absurd (List.cons.inj (List.cons.inj same).2).1.symm notDash
  · obtain ⟨-, -, same | ⟨d, -, same, foundOther⟩⟩ := otherSpells
    · exact absurd (List.cons.inj (List.cons.inj same).2).1 notDash
    · obtain rfl := (List.cons.inj (List.cons.inj same).2).1
      exact Option.some.inj (found.symm.trans foundOther)

theorem Stops.not_item {parser : ArgumentParser platform} {item : Item} {argv : List (Option Text)}
    {returned : Option Bool} (valid : item.Valid parser) :
    ¬ Stops parser (item.texts.map some ++ argv) returned := by
  intro stops
  cases item with
  | positional =>
      cases stops with
      | unknown dashed => exact valid dashed
      | missing spells => exact valid spells.dashed
      | nullValue spells => exact valid spells.dashed
  | boolean name =>
      obtain ⟨known, isBoolean⟩ := valid
      cases stops with
      | unknown dashed unknown => exact unknown name known
      | missing spells notBoolean | nullValue spells notBoolean =>
          obtain rfl := spells.unique known
          rw [isBoolean] at notBoolean
          cases notBoolean
  | valued name =>
      cases stops with
      | unknown dashed unknown => exact unknown name valid.1

/-- Arguments do not begin with two items. -/
theorem Item.Valid.unique {parser : ArgumentParser platform} {item other : Item} (valid : item.Valid parser)
    (validOther : other.Valid parser) {argv otherArgv : List (Option Text)}
    (split : item.texts.map some ++ argv = other.texts.map some ++ otherArgv) :
    item = other ∧ argv = otherArgv := by
  cases item with
  | positional =>
      cases other with
      | positional => simpa [Item.texts] using split
      | boolean | valued =>
          obtain ⟨rfl, -⟩ := by simpa [Item.texts] using split
          exact absurd validOther.1.dashed valid
  | boolean name spelling =>
      cases other with
      | positional =>
          obtain ⟨rfl, -⟩ := by simpa [Item.texts] using split
          exact absurd valid.1.dashed validOther
      | boolean otherName otherSpelling =>
          obtain ⟨rfl, rest⟩ : spelling = otherSpelling ∧ _ := by simpa [Item.texts] using split
          obtain rfl := valid.1.unique validOther.1
          exact ⟨rfl, rest⟩
      | valued otherName otherSpelling =>
          obtain ⟨rfl, -⟩ : spelling = otherSpelling ∧ _ := by simpa [Item.texts] using split
          obtain rfl := valid.1.unique validOther.1
          cases valid.2.symm.trans validOther.2
  | valued name spelling value =>
      cases other with
      | positional =>
          obtain ⟨rfl, -⟩ := by simpa [Item.texts] using split
          exact absurd valid.1.dashed validOther
      | boolean otherName otherSpelling =>
          obtain ⟨rfl, -⟩ : spelling = otherSpelling ∧ _ := by simpa [Item.texts] using split
          obtain rfl := valid.1.unique validOther.1
          cases valid.2.symm.trans validOther.2
      | valued otherName otherSpelling otherValue =>
          obtain ⟨rfl, rfl, rest⟩ : spelling = otherSpelling ∧ value = otherValue ∧ _ := by
            simpa [Item.texts] using split
          obtain rfl := valid.1.unique validOther.1
          exact ⟨rfl, rest⟩

/-- The first item is the only one that `argv` can begin with. -/
theorem Reads.of_item {parser : ArgumentParser platform} {item : Item} (valid : item.Valid parser)
    {argv : List (Option Text)} {items : List Item} {returned : Option Bool}
    (reads : Reads parser (item.texts.map some ++ argv) items returned) :
    ∃ rest, items = item :: rest ∧ Reads parser argv rest returned := by
  obtain ⟨rest, split, stops⟩ := reads.split
  cases items with
  | nil =>
      rw [List.flatMap_nil, List.map_nil, List.nil_append] at split
      exact absurd (split ▸ stops) (Stops.not_item valid)
  | cons other items =>
      obtain ⟨validOther, validItems⟩ := List.forall_mem_cons.mp reads.valid
      rw [List.flatMap_cons, List.map_append, List.append_assoc] at split
      obtain ⟨rfl, same⟩ := valid.unique validOther split
      exact ⟨items, rfl, validItems, rest, same, stops⟩

theorem Reads.unique {parser : ArgumentParser platform} {argv : List (Option Text)}
    {items other : List Item} {returned otherReturned : Option Bool}
    (reads : Reads parser argv items returned) (otherReads : Reads parser argv other otherReturned) :
    items = other := by
  obtain ⟨rest, rfl, stops⟩ := reads.split
  have valid := reads.valid
  clear reads
  induction items generalizing other with
  | nil =>
      cases other with
      | nil => rfl
      | cons item other =>
          obtain ⟨more, split, -⟩ := otherReads.split
          rw [List.flatMap_nil, List.map_nil, List.nil_append, List.flatMap_cons, List.map_append,
            List.append_assoc] at split
          exact absurd (split ▸ stops) (Stops.not_item (otherReads.valid item (by simp)))
  | cons item items ih =>
      obtain ⟨validItem, validItems⟩ := List.forall_mem_cons.mp valid
      rw [List.flatMap_cons, List.map_append, List.append_assoc] at otherReads
      obtain ⟨others, rfl, readsOthers⟩ := otherReads.of_item validItem
      rw [ih readsOthers validItems]

/-- `__parseArgs` behind the program name. -/
theorem internalParseArgs_reads {parser : ArgumentParser platform} {argv : List (Option Text)}
    {items : List Item} {returned : Option Bool} (reads : Reads parser argv items returned)
    (program : Option Text) :
    ∃ next, Follows items parser next ∧ parser.internalParseArgs (program :: argv) = (returned, next) :=
  parseArgsLoop_reads reads

end Snowlake.ArgumentParser
