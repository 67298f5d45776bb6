import Snowlake.Args.Reuse
import Snowlake.Parse.Literals

/-! # Numerals on the command line

Nobody looks at the stream after `ss >> val`.  So any text is a number: letters
are 0, trailing characters are dropped, a minus sign wraps around, what is too
large is cut off, and a blank text gives whatever the variable held.
-/

namespace Snowlake.ArgumentParser

open Lexer Writes

variable {platform : Platform}

/-- The digits behind an optional plus sign. -/
def numeralOf : Text → Text
  | '+' :: digits => digits
  | digits => digits

def IsDecimal (width : Nat) (text : Text) : Prop :=
  IsNumeral (numeralOf text) ∧ denoted (numeralOf text) < 2 ^ width

instance (width : Nat) (text : Text) : Decidable (IsDecimal width text) :=
  inferInstanceAs (Decidable (_ ∧ _))

/-- The unsigned types, and their width. -/
inductive ValueType.Unsigned : ValueType → Nat → Prop
  | uint32 : Unsigned .uint32 32
  | uint64 : Unsigned .uint64 64

theorem ValueType.Unsigned.ne_bool {type : ValueType} {width : Nat} (unsigned : type.Unsigned width) :
    type ≠ .bool := by
  intro isBool
  rw [isBool] at unsigned
  cases unsigned

/-- A number as a value of an unsigned type. -/
def Value.ofNat : ValueType → Nat → Value platform
  | .uint32, n => .uint32 (UInt32.ofNat n)
  | _, n => .uint64 (UInt64.ofNat n)

theorem extractUnsigned_numeral {digits : Text} (numeral : IsNumeral digits) {width : Nat}
    (small : denoted digits < 2 ^ width) :
    extractUnsigned width digits = some (denoted digits) ∧
      extractUnsigned width ('+' :: digits) = some (denoted digits) := by
  obtain ⟨nonempty, allDigits⟩ := numeral
  obtain ⟨first, rest, rfl⟩ := List.exists_cons_of_ne_nil nonempty
  have firstDigit := allDigits first (by simp)
  have noSpace : (first :: rest).dropWhile isSpace = first :: rest :=
    List.dropWhile_cons_of_neg (by simp [isSpace_of_isDigit firstDigit])
  have noSpacePlus : ('+' :: first :: rest).dropWhile isSpace = '+' :: first :: rest :=
    List.dropWhile_cons_of_neg (by decide)
  have plus : splitSign ('+' :: first :: rest) = (false, first :: rest) := rfl
  have whole : (first :: rest).takeWhile isDigit = first :: rest := List.takeWhile_eq_self_iff.mpr allDigits
  have inRange : ¬ Nat.ofDigitChars 10 (first :: rest) 0 ≥ 2 ^ width := Nat.not_le.mpr small
  constructor
  · simp only [extractUnsigned, noSpace, splitSign_of_isDigit firstDigit, whole, inRange]
    simp [denoted]
  · simp only [extractUnsigned, noSpacePlus, plus, whole, inRange]
    simp [denoted]

theorem numeralOf_cases (text : Text) : text = '+' :: numeralOf text ∨ text = numeralOf text := by
  unfold numeralOf
  split
  · exact .inl rfl
  · exact .inr rfl

theorem extractUnsigned_decimal {width : Nat} {text : Text} (decimal : IsDecimal width text) :
    extractUnsigned width text = some (denoted (numeralOf text)) := by
  obtain ⟨whole, plus⟩ := extractUnsigned_numeral decimal.1 decimal.2
  rcases numeralOf_cases text with same | same
  · exact (congrArg (extractUnsigned width) same).trans plus
  · exact (congrArg (extractUnsigned width) same).trans whole

/-- A numeral is converted to the number it denotes. -/
theorem cast_decimal {value : Value platform} {width : Nat} (unsigned : value.type.Unsigned width)
    {text : Text} (decimal : IsDecimal width text) :
    value.cast text = .ofNat value.type (denoted (numeralOf text)) := by
  have extracted := extractUnsigned_decimal decimal
  cases value with
  | uint32 | uint64 =>
      cases unsigned
      simp [Value.cast, Value.type, Value.ofNat, extracted]
  | string | bool | float | double => cases unsigned

/-! ## The last text of an option -/

def Item.text? (name : Text) : Item → Option Text
  | .valued other _ text => if other = name then some text else none
  | _ => none

/-- The argument behind the last occurrence of an option. -/
def lastText (items : List Item) (name : Text) : Option Text :=
  (items.filterMap (Item.text? name)).getLast?

/-- An option that takes a value has the conversion of its last text. -/
theorem given_eq_lastText {parser : ArgumentParser platform} {name : Text} {option : CmdlOption platform}
    (found : parser.opts.lookup name = some option) (notBool : option.defaultValue.type ≠ .bool)
    {items : List Item} (valid : ∀ item ∈ items, item.Valid parser) :
    given items name option.defaultValue = (lastText items name).map option.defaultValue.cast := by
  rw [given, lastText, ← List.getLast?_map, List.map_filterMap]
  congr 1
  refine List.filterMap_congr fun item member => ?_
  cases item with
  | positional => rfl
  | boolean other =>
      have isBoolean := (valid _ member).2
      have different : other ≠ name := by
        intro same
        rw [same, definedBooleanOption, found] at isBoolean
        exact notBool (of_decide_eq_true isBoolean)
      simp [Item.value?, Item.text?, different]
  | valued other spelling text => by_cases same : other = name <;> simp [Item.value?, Item.text?, same]

theorem lastText_isSome {parser : ArgumentParser platform} {name : Text} {option : CmdlOption platform}
    (found : parser.opts.lookup name = some option) (notBool : option.defaultValue.type ≠ .bool)
    {items : List Item} (valid : ∀ item ∈ items, item.Valid parser) :
    (lastText items name).isSome = true ↔ Occurs name items := by
  rw [← given_isSome_iff items name option.defaultValue, given_eq_lastText found notBool valid,
    Option.isSome_map]

/-! ## Destinations -/

/-- The last option, in the order of iteration, that is assigned to a destination. -/
def holder (parser : ArgumentParser platform) (address : Address) : Option Text :=
  (parser.opts.keys.filter fun name => (parser.opts.lookup name).bind (·.dst) = some address).getLast?

/-- What an option is assigned after the items. -/
def assignedAfter (parser : ArgumentParser platform) (items : List Item) (name : Text) :
    Option (Value platform) :=
  (parser.opts.lookup name).map fun option =>
    ((given items name option.defaultValue).or option.value).getD option.defaultValue

theorem Follows.holder {items : List Item} {parser next : ArgumentParser platform}
    (follows : Follows items parser next) (address : Address) :
    next.holder address = parser.holder address := by
  rw [ArgumentParser.holder, ArgumentParser.holder, follows.keys]
  exact congrArg List.getLast? (List.filter_congr fun name _ => by rw [follows.dst name])

theorem dst_of_holder {parser : ArgumentParser platform} {address : Address} {name : Text}
    (held : parser.holder address = some name) :
    ∃ option, parser.opts.lookup name = some option ∧ option.dst = some address := by
  have member := List.mem_filter.mp (List.mem_of_getLast? held)
  exact Option.bind_eq_some_iff.mp (of_decide_eq_true member.2)

/-- A destination has the value of its holder. -/
theorem Follows.written_holder {items : List Item} {parser next : ArgumentParser platform}
    (follows : Follows items parser next) (memory : Memory platform) (address : Address) :
    writeAll memory next.writes address =
      ((parser.holder address).bind (parser.assignedAfter items)).getD (memory address) := by
  have writers : (next.opts.keys.filter fun name =>
      ((next.opts.lookup name).bind CmdlOption.write).map (·.1) = some address).getLast? =
      parser.holder address := by
    rw [← follows.holder, ArgumentParser.holder]
    refine congrArg List.getLast? (List.filter_congr fun name _ => ?_)
    cases next.opts.lookup name with
    | none => rfl
    | some option => cases dst : option.dst <;> simp [CmdlOption.write, dst]
  rw [writes, Table.filterMap_entries, writeAll_filterMap, writers]
  cases held : parser.holder address with
  | none => rfl
  | some name =>
      obtain ⟨option, found, dst⟩ := dst_of_holder held
      obtain ⟨after, foundAfter, same⟩ := follows.option name option found
      simp [assignedAfter, found, foundAfter, CmdlOption.write, CmdlOption.assigned, same.dst, dst,
        same.value, same.defaultValue]

/-- The destination of an option has a holder, and so a value. -/
theorem exists_holder {parser : ArgumentParser platform} {name : Text} {option : CmdlOption platform}
    (found : parser.opts.lookup name = some option) (items : List Item) {address : Address}
    (dst : option.dst = some address) :
    ∃ other value, parser.holder address = some other ∧ parser.assignedAfter items other = some value := by
  have member : name ∈ parser.opts.keys.filter fun name =>
      (parser.opts.lookup name).bind (·.dst) = some address := by
    refine List.mem_filter.mpr ⟨AList.mem_keys.mp (AList.lookup_isSome.mp (found ▸ rfl)), ?_⟩
    simp [found, dst]
  obtain ⟨other, held⟩ := Option.isSome_iff_exists.mp
    (List.getLast?_isSome.mpr (List.ne_nil_of_mem member))
  obtain ⟨otherOption, foundOther, -⟩ := dst_of_holder held
  exact ⟨other, _, held, congrArg (Option.map _) foundOther⟩

/-! ## When a number is what was written -/

/-- If a call returns true and the option occurs, the text of its last occurrence
is a decimal numeral in range, and the destination has the number it denotes. -/
def NumeralExact (parser : ArgumentParser platform) (name : Text) (option : CmdlOption platform)
    (width : Nat) (argv : List (Option Text)) (memory : Memory platform) : Prop :=
  (parser.parseArgs argv memory).returned = some true →
    ∀ items returned, Reads parser argv.tail items returned → Occurs name items →
      ∃ text, lastText items name = some text ∧ IsDecimal width text ∧
        ∀ address, option.dst = some address → (parser.parseArgs argv memory).memory address =
          .ofNat option.defaultValue.type (denoted (numeralOf text))

/-- The call is refused, or the option does not occur, or the text of its last
occurrence is a decimal numeral in range.  Then another option that is assigned to
the same destination, behind this one, has the same number. -/
def NumeralGiven (parser : ArgumentParser platform) (name : Text) (option : CmdlOption platform)
    (width : Nat) (argv : List (Option Text)) : Prop :=
  argv ≠ [] → ∀ items, Reads parser argv.tail items (some true) → Accepts parser items →
    ∀ text, lastText items name = some text →
      IsDecimal width text ∧
        ∀ address, option.dst = some address → ∀ other, parser.holder address = some other →
          other ≠ name → parser.assignedAfter items other =
            some (.ofNat option.defaultValue.type (denoted (numeralOf text)))

/-- An option is assigned the number of its last text. -/
theorem assignedAfter_decimal {parser : ArgumentParser platform} {name : Text}
    {option : CmdlOption platform} (found : parser.opts.lookup name = some option) {width : Nat}
    (unsigned : option.defaultValue.type.Unsigned width) {items : List Item}
    (valid : ∀ item ∈ items, item.Valid parser) {text : Text} (isLast : lastText items name = some text)
    (decimal : IsDecimal width text) :
    parser.assignedAfter items name =
      some (.ofNat option.defaultValue.type (denoted (numeralOf text))) := by
  rw [assignedAfter, found, Option.map_some, given_eq_lastText found unsigned.ne_bool valid, isLast,
    ← cast_decimal unsigned decimal]
  rfl

theorem numeralExact_iff {parser : ArgumentParser platform} {name : Text} {option : CmdlOption platform}
    (found : parser.opts.lookup name = some option) {width : Nat}
    (unsigned : option.defaultValue.type.Unsigned width) (argv : List (Option Text))
    (memory : Memory platform) :
    NumeralExact parser name option width argv memory ↔ NumeralGiven parser name option width argv := by
  cases argv with
  | nil =>
      constructor
      · intro _ nonempty
        exact absurd rfl nonempty
      · intro _ refused
        cases refused
  | cons program args =>
      constructor
      · intro exact _ items reads accepts text isLast
        replace reads : Reads parser args items (some true) := reads
        obtain ⟨performs, accepted⟩ := parseArgs_performs reads program memory
        have returned := accepted.mpr ⟨rfl, accepts⟩
        have occurs := (lastText_isSome found unsigned.ne_bool reads.valid).mp (isLast ▸ rfl)
        obtain ⟨same, isSame, decimal, destination⟩ := exact returned items _ reads occurs
        obtain rfl := Option.some.inj (isLast.symm.trans isSame)
        refine ⟨decimal, fun address dst other held _ => ?_⟩
        have there := destination address dst
        obtain ⟨holder, value, isHolder, isValue⟩ := exists_holder found items dst
        obtain rfl := Option.some.inj (held.symm.trans isHolder)
        rw [performs.written returned, performs.follows.written_holder, held, Option.bind_some,
          isValue] at there
        rw [isValue]
        exact congrArg some there
      · intro condition returned items verdict reads occurs
        replace reads : Reads parser args items verdict := reads
        obtain ⟨performs, accepted⟩ := parseArgs_performs reads program memory
        obtain ⟨rfl, accepts⟩ := accepted.mp returned
        obtain ⟨text, isLast⟩ := Option.isSome_iff_exists.mp
          ((lastText_isSome found unsigned.ne_bool reads.valid).mpr occurs)
        obtain ⟨decimal, shared⟩ := condition (List.cons_ne_nil _ _) items reads accepts text isLast
        refine ⟨text, isLast, decimal, fun address dst => ?_⟩
        obtain ⟨other, _, held, -⟩ := exists_holder found items dst
        have assigned : parser.assignedAfter items other =
            some (.ofNat option.defaultValue.type (denoted (numeralOf text))) := by
          by_cases same : other = name
          · exact same ▸ assignedAfter_decimal found unsigned reads.valid isLast decimal
          · exact shared address dst other held same
        rw [performs.written returned, performs.follows.written_holder, held, Option.bind_some, assigned]
        rfl

def ageParameter : Parameter integerPlatform := ⟨"age".toList, 'a', false, .uint32 20, some 0⟩

def ageArgv (value : Text) : List (Option Text) := [some "program".toList, some "--age".toList, some value]

theorem age_reads (value : Text) : Reads (register [ageParameter] 0) (ageArgv value).tail
    [.valued "age".toList "--age".toList value] (some true) := by
  exact ⟨List.forall_mem_singleton.mpr ⟨⟨by decide, by decide, .inl rfl⟩, rfl⟩, [], rfl, .done⟩

theorem age_distinct : Distinct [ageParameter] := by
  constructor <;> decide

theorem age_registered : Registered [ageParameter] 0 (register [ageParameter] 0) :=
  ⟨.rfl, .rfl, rfl, rfl⟩

theorem age_found : (register [ageParameter] 0).opts.lookup "age".toList = some ageParameter.option :=
  age_registered.option age_distinct (List.mem_singleton_self _)

/-- The age 18 is the number 18. -/
theorem age_exact :
    NumeralExact (register [ageParameter] 0) "age".toList ageParameter.option 32 (ageArgv "18".toList)
      blankMemory := by
  refine (numeralExact_iff age_found .uint32 (ageArgv "18".toList) blankMemory).mpr ?_
  intro _ items reads _ text isLast
  obtain rfl := reads.unique (age_reads "18".toList)
  obtain rfl : "18".toList = text := Option.some.inj isLast
  refine ⟨by decide, fun address dst other held different => ?_⟩
  obtain ⟨option, found, -⟩ := dst_of_holder held
  obtain ⟨parameter, member, rfl, -⟩ := (age_registered.lookup_iff age_distinct).mp found
  obtain rfl := List.mem_singleton.mp member
  exact absurd rfl different

/-- The age `abc` is accepted, and is 0. -/
theorem letters_not_exact :
    ¬ NumeralExact (register [ageParameter] 0) "age".toList ageParameter.option 32 (ageArgv "abc".toList)
      blankMemory := by
  intro exact
  have reads := age_reads "abc".toList
  have accepts : Accepts (register [ageParameter] 0) [.valued "age".toList "--age".toList "abc".toList] :=
    (age_registered.accepts_iff age_distinct _).mpr
      ⟨fun parameter member _ => ⟨_, List.mem_singleton_self _, by rw [List.mem_singleton.mp member]; rfl⟩,
        Nat.zero_le _⟩
  have returned := (parseArgs_performs reads (some "program".toList) blankMemory).2.mpr ⟨rfl, accepts⟩
  obtain ⟨text, isLast, decimal, -⟩ := exact returned _ _ reads ⟨_, List.mem_singleton_self _, rfl⟩
  obtain rfl : "abc".toList = text := Option.some.inj isLast
  exact absurd decimal (by decide)

end Snowlake.ArgumentParser
