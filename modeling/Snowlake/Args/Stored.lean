import Snowlake.Args.ArgumentParser
import Snowlake.Variant.Contents

/-! # Options as they are stored

`CmdlOption` of `ArgumentParser.h` keeps the default and the value in variants and
the destination behind a `void*`, so that nothing in its type says that the three
agree.  Visits of the default choose the type that the value and the destination
are taken for.
-/

namespace Snowlake.ArgumentParser

open Objects Variant Writes

variable {platform : Platform}

/-! ## The variants -/

/-- The types of the alternatives. -/
def Payload (platform : Platform) : ValueType → Type
  | .string => Text
  | .uint32 => UInt32
  | .uint64 => UInt64
  | .bool => Bool
  | .float => platform.Float
  | .double => platform.Double

def Value.ofPayload : (type : ValueType) → Payload platform type → Value platform
  | .string, value => .string value
  | .uint32, value => .uint32 value
  | .uint64, value => .uint64 value
  | .bool, value => .bool value
  | .float, value => .float value
  | .double, value => .double value

def Value.payload : (value : Value platform) → Payload platform value.type
  | .string value => value
  | .uint32 value => value
  | .uint64 value => value
  | .bool value => value
  | .float value => value
  | .double value => value

/-- The alternatives of `value_type`. -/
def valueTypes : Pack ValueType := ⟨[.string, .uint32, .uint64, .bool, .float, .double], by decide⟩

/-- `ArgumentParser::value_type`. -/
abbrev StoredValue (platform : Platform) := Variant valueTypes (Payload platform)

/-- The conversions between the alternatives; no function here uses one. -/
abbrev ValueConversions (platform : Platform) := Conversions ValueType (Payload platform)

/-- `operator()` of `CmdlOptionValueCast`. -/
def castPayload (rawValue : Text) : (type : ValueType) → Payload platform type → Payload platform type
  | .string, _ => rawValue
  | .uint32, _ => ((extractUnsigned 32 rawValue).map UInt32.ofNat).getD platform.uninitializedUint32
  | .uint64, _ => ((extractUnsigned 64 rawValue).map UInt64.ofNat).getD platform.uninitializedUint64
  | .bool, _ => platform.extractBool rawValue
  | .float, _ => platform.extractFloat rawValue
  | .double, _ => platform.extractDouble rawValue

/-! ## The options -/

/-- A `void*` made of a `T*`; only the language keeps to the `T`. -/
structure Pointer where
  type : ValueType
  address : Address
  deriving Repr, DecidableEq

/-- `*reinterpret_cast<T*>(pointer) = value`. -/
def Pointer.assign (pointer : Pointer) (type : ValueType) (value : Payload platform type)
    (memory : Memory platform) : Exec (Memory platform) :=
  if pointer.type = type then return Function.update memory pointer.address (.ofPayload type value)
  else throw .undefined

/-- `CmdlOption`, but for the description; as `_opts[name]` makes it if it is new. -/
structure StoredOption (platform : Platform) where
  shorthand : Char := Char.ofNat 0
  required : Bool := false
  defaultValue : StoredValue platform := .default
  value : StoredValue platform := .default
  dst : Option Pointer := none

namespace StoredOption

variable (conversions : ValueConversions platform)

/-- The assignment that the compiler defines. -/
def assign (option other : StoredOption platform) : Exec (StoredOption platform) := do
  let (parameter, _) ← other.defaultValue.ofVariant conversions .lvalue true
  let defaultValue ← option.defaultValue.assign parameter
  let (parameter, _) ← other.value.ofVariant conversions .lvalue true
  let value ← option.value.assign parameter
  return { other with defaultValue, value }

def destroyed (option : StoredOption platform) : Exec Unit := do
  option.value.destroyed
  option.defaultValue.destroyed

/-- `value.value = true`. -/
def setTrue (option : StoredOption platform) : Exec (StoredOption platform) := do
  let value ← option.value.assignValue conversions ⟨.rvalue, false, .bool, true⟩
  return { option with value }

/-- `CmdlOptionValueCast`; what it returns becomes a variant. -/
def valueCast (rawValue : Text) (type : ValueType) (val : Payload platform type) :
    Exec (StoredValue platform × Payload platform type) := do
  let result ← Variant.ofValue conversions ⟨.rvalue, false, type, castPayload rawValue type val⟩
  return (result, val)

def updateValue (newValue : Text) (option : StoredOption platform) : Exec (StoredOption platform) := do
  let (parameter, defaultValue) ← option.defaultValue.visit (valueCast conversions newValue)
  let value ← option.value.assign parameter
  return { option with defaultValue, value }

/-- What `CmdlOptionDestinationValueUpdate` assigns. -/
def assigned (option : StoredOption platform) (type : ValueType) (defaultValue : Payload platform type) :
    Exec (Payload platform type) :=
  if option.value.valid then option.value.get type else return defaultValue

/-- `if (dst_)`, and the assignment. -/
def updateDst (option : StoredOption platform) (memory : Memory platform) (type : ValueType)
    (defaultValue : Payload platform type) : Exec (Memory platform) :=
  match option.dst with
  | none => return memory
  | some dst => do
      let value ← option.assigned type defaultValue
      dst.assign type value memory

/-- `CmdlOptionDestinationValueUpdate`; what it returns becomes a variant. -/
def destinationValueUpdate (option : StoredOption platform) (memory : Memory platform) (type : ValueType)
    (defaultValue : Payload platform type) :
    Exec ((StoredValue platform × Memory platform) × Payload platform type) := do
  let memory ← option.updateDst memory type defaultValue
  let result ← Variant.ofValue conversions ⟨.rvalue, false, type, defaultValue⟩
  return ((result, memory), defaultValue)

/-- `assignValueToDst`, which discards what the visitor returns. -/
def assignValueToDst (option : StoredOption platform) (memory : Memory platform) :
    Exec (StoredOption platform × Memory platform) := do
  let ((result, memory), defaultValue) ←
    option.defaultValue.visit (option.destinationValueUpdate conversions memory)
  result.destroyed
  return ({ option with defaultValue }, memory)

end StoredOption

/-! ## The parser -/

structure StoredParser (platform : Platform) where
  opts : Table Text (StoredOption platform) := ∅
  shorthandMap : Table Char Text := ∅
  positionalArgs : List Text := []
  minPositionalArgsRequired : Nat := 0

/-- The arguments of `addParameter<T>`, of which the members that add parameters
of one type are instances. -/
structure TypedParameter (platform : Platform) where
  type : ValueType
  name : Text
  shorthand : Char
  required : Bool
  res : Option Address
  defaultValue : Payload platform type

/-- `CmdlOption opts{…}`. -/
def TypedParameter.opts (parameter : TypedParameter platform) (defaultValue : StoredValue platform) :
    StoredOption platform where
  shorthand := parameter.shorthand
  required := parameter.required
  defaultValue := defaultValue
  value := .default
  dst := parameter.res.map fun res => ⟨parameter.type, res⟩

/-- What `__registerCmdlOption` returns, and where `argv` stands then. -/
structure StoredScan (platform : Platform) (given : List (Option Text)) where
  returned : Option Bool
  argv : List (Option Text)
  parser : StoredParser platform
  atMost : argv.length ≤ given.length

namespace StoredParser

variable (conversions : ValueConversions platform)

def addParameter (parser : StoredParser platform) (parameter : TypedParameter platform) :
    Exec (StoredParser platform) := do
  let defaultValue ← Variant.ofValue conversions ⟨.lvalue, false, parameter.type, parameter.defaultValue⟩
  let opts := parameter.opts defaultValue
  let shorthandMap := parser.shorthandMap.insert parameter.shorthand parameter.name
  let option ← StoredOption.assign conversions ((parser.opts.lookup parameter.name).getD {}) opts
  opts.destroyed
  return { parser with shorthandMap, opts := parser.opts.insert parameter.name option }

def setMinimumPositionalArgsRequired (parser : StoredParser platform) (n : Nat) : StoredParser platform :=
  { parser with minPositionalArgsRequired := n }

def addPositionalParameter (parser : StoredParser platform) (arg : Text) : StoredParser platform :=
  { parser with positionalArgs := parser.positionalArgs ++ [arg] }

def updateOption (parser : StoredParser platform) (key : Text) (option : StoredOption platform) :
    StoredParser platform :=
  { parser with opts := parser.opts.replace key option }

/-- `__registerCmdlOption`. -/
def registerCmdlOption (parser : StoredParser platform) (key : Text) (argv : List (Option Text)) :
    Exec (StoredScan platform argv) :=
  if key = [] then return ⟨some false, argv, parser, le_rfl⟩
  else
    match parser.opts.lookup key with
    | none => return ⟨some false, argv, parser, le_rfl⟩
    | some option =>
        if option.defaultValue.is .bool then do
          let option ← option.setTrue conversions
          return ⟨some true, argv, parser.updateOption key option, le_rfl⟩
        else
          match argv with
          | [] | [_] => return ⟨some false, [], parser, Nat.zero_le _⟩
          | _ :: none :: rest => return ⟨none, none :: rest, parser, Nat.le_succ _⟩
          | _ :: some val :: rest => do
              let option ← option.updateValue conversions val
              return ⟨some true, some val :: rest, parser.updateOption key option, Nat.le_succ _⟩

/-- The loop of `__parseArgs`, behind the program name. -/
def parseArgsLoop (parser : StoredParser platform) :
    List (Option Text) → Exec (Option Bool × StoredParser platform)
  | [] => return (some true, parser)
  | none :: _ => return (some false, parser)
  | some arg :: rest =>
      let register (key : Text) : Exec (Option Bool × StoredParser platform) := do
        let scanned ← parser.registerCmdlOption conversions key (some arg :: rest)
        if scanned.returned = some true then scanned.parser.parseArgsLoop scanned.argv.tail
        else return (scanned.returned, scanned.parser)
      match arg with
      | '-' :: '-' :: key => register key
      | ['-', c] =>
          match parser.shorthandMap.lookup c with
          | none => return (some false, parser)
          | some key => register key
      | '-' :: _ => return (some false, parser)
      | arg => (parser.addPositionalParameter arg).parseArgsLoop rest
termination_by argv => argv.length
decreasing_by
  · have shorter := scanned.atMost
    rw [List.length_tail, List.length_cons] at *
    omega
  · simp

/-- `__parseArgs`. -/
def internalParseArgs (parser : StoredParser platform) :
    List (Option Text) → Exec (Option Bool × StoredParser platform)
  | [] => return (some false, parser)
  | _ :: argv => parser.parseArgsLoop conversions argv

/-- The sanity check of one shorthand. -/
def checkShorthand (parser : StoredParser platform) (shorthand : Char) (optionKey : Text) : Bool :=
  match parser.opts.lookup optionKey with
  | none => false
  | some option => option.shorthand = shorthand

/-- The part of `__checkParameters` on shorthands. -/
def checkShorthands (parser : StoredParser platform) : Bool :=
  parser.shorthandMap.entries.length = parser.opts.entries.length &&
    parser.shorthandMap.entries.all fun pair => parser.checkShorthand pair.1 pair.2

/-- `__checkParameters`. -/
def checkParameters (parser : StoredParser platform) : Bool :=
  parser.checkShorthands &&
    parser.minPositionalArgsRequired ≤ parser.positionalArgs.length &&
    parser.opts.entries.all fun pair => !(pair.2.required && !pair.2.value.valid)

/-- The body of the loop of `__assignValues`. -/
def assignValue (state : StoredParser platform × Memory platform)
    (pair : Sigma fun _ : Text => StoredOption platform) : Exec (StoredParser platform × Memory platform) := do
  let (option, memory) ← pair.2.assignValueToDst conversions state.2
  return (state.1.updateOption pair.1 option, memory)

/-- `__assignValues`. -/
def assignValues (parser : StoredParser platform) (memory : Memory platform) :
    Exec (StoredParser platform × Memory platform) :=
  parser.opts.entries.foldlM (assignValue conversions) (parser, memory)

def parseArgs (parser : StoredParser platform) (argv : List (Option Text)) (memory : Memory platform) :
    Exec (Option Bool × StoredParser platform × Memory platform) := do
  let (returned, parser) ← parser.internalParseArgs conversions argv
  if returned ≠ some true then return (returned, parser, memory)
  else if parser.checkParameters then
    return (some true, ← parser.assignValues conversions memory)
  else return (some false, parser, memory)

end StoredParser

/-! ## The options of the model -/

/-- An alternative with its value. -/
def Value.stored (value : Value platform) : (type : ValueType) × Payload platform type :=
  ⟨value.type, value.payload⟩

theorem Value.stored_ofPayload (type : ValueType) (value : Payload platform type) :
    (Value.ofPayload type value).stored = ⟨type, value⟩ := by
  cases type <;> rfl

@[simp]
theorem Value.ofPayload_type (type : ValueType) (value : Payload platform type) :
    (Value.ofPayload type value).type = type := by
  cases type <;> rfl

theorem Value.ofPayload_payload (value : Value platform) :
    Value.ofPayload value.type value.payload = value := by
  cases value <;> rfl

theorem Value.stored_cast (rawValue : Text) (value : Value platform) :
    (value.cast rawValue).stored = ⟨value.type, castPayload rawValue value.type value.payload⟩ := by
  cases value <;> rfl

theorem mem_valueTypes (type : ValueType) : type ∈ valueTypes.types := by
  cases type <;> decide

theorem ofPayload_holds (conversions : ValueConversions platform) (category : ValueCategory) (type : ValueType)
    (value : Payload platform type) :
    Refines Holds (Variant.ofValue conversions ⟨category, false, type, value⟩ : Exec (StoredValue platform))
      (.ok (some ⟨type, value⟩)) :=
  Holds.ofValue conversions (mem_valueTypes _) (.inl rfl)

/-- The stored option is an option of the model, whose value is of the type of its
default, and the destination was registered with that type. -/
structure StoredOption.Stores (stored : StoredOption platform) (option : CmdlOption platform) : Prop where
  shorthand : stored.shorthand = option.shorthand
  required : stored.required = option.required
  defaultValue : Holds stored.defaultValue (some option.defaultValue.stored)
  value : Holds stored.value (option.value.map Value.stored)
  dst : stored.dst = option.dst.map fun address => ⟨option.defaultValue.type, address⟩

namespace StoredOption

variable {conversions : ValueConversions platform} {stored other : StoredOption platform}
  {option : CmdlOption platform}

/-- Whatever the option held, it is assigned the other. -/
theorem assign_stores {contents contents' : Option ((type : ValueType) × Payload platform type)}
    (holds : Holds stored.defaultValue contents) (holds' : Holds stored.value contents')
    (stores : Stores other option) : Refines Stores (assign conversions stored other) (.ok option) := by
  refine Refines.step (stores.defaultValue.copied conversions) ?_
  rintro ⟨parameter, _⟩ ⟨isDefault, _⟩
  refine Refines.step (holds.assign isDefault) ?_
  intro defaultValue isDefault'
  refine Refines.step (stores.value.copied conversions) ?_
  rintro ⟨parameter', _⟩ ⟨isValue, _⟩
  refine Refines.step (holds'.assign isValue) ?_
  intro value isValue'
  exact Refines.pure ⟨stores.shorthand, stores.required, isDefault', isValue', stores.dst⟩

theorem destroyed_stores (stores : Stores stored option) :
    Refines (fun _ _ => True) stored.destroyed (.ok ()) :=
  Refines.step stores.value.destroyed fun _ _ => stores.defaultValue.destroyed

theorem setTrue_stores (stores : Stores stored option) (isBool : option.defaultValue.type = .bool) :
    Refines Stores (stored.setTrue conversions) (.ok (option.setTrue isBool)) := by
  have assigned : Refines Holds (stored.value.assignForward conversions ⟨.rvalue, false, .bool, true⟩)
      (.ok (some ⟨.bool, true⟩)) := stores.value.assignForward conversions (mem_valueTypes _) (.inl rfl)
  refine Refines.step assigned ?_
  intro value isTrue
  exact Refines.pure ⟨stores.shorthand, stores.required, stores.defaultValue, isTrue, stores.dst⟩

theorem updateValue_stores (stores : Stores stored option) (newValue : Text) :
    Refines Stores (stored.updateValue conversions newValue) (.ok (option.updateValue newValue)) := by
  have cast : Refines (fun made value => Holds made.1 (some (Value.stored value)) ∧
        made.2 = option.defaultValue.payload)
      (valueCast conversions newValue option.defaultValue.type option.defaultValue.payload)
      (.ok (option.defaultValue.cast newValue)) := by
    have made := ofPayload_holds conversions .rvalue option.defaultValue.type
      (castPayload newValue option.defaultValue.type option.defaultValue.payload)
    refine Refines.step made ?_
    intro result isCast
    rw [← Value.stored_cast] at isCast
    exact Refines.pure ⟨isCast, rfl⟩
  have visited := stores.defaultValue.visited (fun made value => Holds made (some (Value.stored value))) cast
  refine Refines.step visited ?_
  rintro ⟨parameter, defaultValue⟩ ⟨isCast, isDefault⟩
  refine Refines.step (stores.value.assign isCast) ?_
  intro value isValue
  exact Refines.pure ⟨stores.shorthand, stores.required, isDefault, isValue, stores.dst⟩

/-- The value is taken for the type of the default, which it has. -/
theorem assigned_stores (stores : Stores stored option) :
    Refines (fun made value => Value.ofPayload option.defaultValue.type made = value)
      (stored.assigned option.defaultValue.type option.defaultValue.payload) (.ok option.assigned) := by
  have holds := stores.value
  rw [assigned, holds.valid, CmdlOption.assigned]
  cases given : option.value with
  | none => exact Refines.pure (Value.ofPayload_payload _)
  | some value =>
      have typed := option.typed value given
      rw [given] at holds
      simp only [Option.map_some, Option.isSome_some, if_true, Option.getD_some]
      rw [← typed]
      have taken : stored.value.get (m := Exec) value.type = pure value.payload := holds.get
      rw [taken]
      exact Refines.pure (Value.ofPayload_payload value)

/-- The destination is written through a pointer of its own type. -/
theorem updateDst_stores (stores : Stores stored option) (memory : Memory platform) :
    Refines (· = ·) (stored.updateDst memory option.defaultValue.type option.defaultValue.payload)
      (.ok (writeAll memory option.write.toList)) := by
  rw [updateDst, stores.dst, CmdlOption.write]
  cases option.dst with
  | none => exact Refines.pure rfl
  | some address =>
      refine Refines.step (assigned_stores stores) ?_
      intro value same
      rw [Pointer.assign, if_pos rfl, same]
      exact Refines.pure rfl

theorem assignValueToDst_stores (stores : Stores stored option) (memory : Memory platform) :
    Refines (fun made after => Stores made.1 option ∧ made.2 = after)
      (stored.assignValueToDst conversions memory) (.ok (writeAll memory option.write.toList)) := by
  have visited : Refines (fun made after => (made.1.2 = after ∧
        ∃ contents, Holds made.1.1 contents) ∧ made.2 = option.defaultValue.payload)
      (stored.destinationValueUpdate conversions memory option.defaultValue.type option.defaultValue.payload)
      (.ok (writeAll memory option.write.toList)) := by
    refine Refines.step (updateDst_stores stores memory) ?_
    intro after same
    refine Refines.step (ofPayload_holds conversions .rvalue _ _) ?_
    intro result isHeld
    exact Refines.pure ⟨⟨same, _, isHeld⟩, rfl⟩
  refine Refines.step (stores.defaultValue.visited (fun made after => made.2 = after ∧
    ∃ contents, Holds made.1 contents) visited) ?_
  rintro ⟨⟨result, after⟩, defaultValue⟩ ⟨⟨same, contents, isHeld⟩, isDefault⟩
  refine Refines.step isHeld.destroyed ?_
  intro _ _
  exact Refines.pure ⟨⟨stores.shorthand, stores.required, isDefault, stores.value, stores.dst⟩, same⟩

end StoredOption

/-! ## The parser of the model -/

structure StoredParser.Stores (stored : StoredParser platform) (parser : ArgumentParser platform) : Prop where
  opts : Table.Related StoredOption.Stores stored.opts parser.opts
  shorthandMap : stored.shorthandMap = parser.shorthandMap
  positionalArgs : stored.positionalArgs = parser.positionalArgs
  minimum : stored.minPositionalArgsRequired = parser.minPositionalArgsRequired

/-- `T` is the type of the default value. -/
def TypedParameter.parameter (parameter : TypedParameter platform) : Parameter platform :=
  ⟨parameter.name, parameter.shorthand, parameter.required, .ofPayload parameter.type parameter.defaultValue,
    parameter.res⟩

namespace StoredParser

variable {conversions : ValueConversions platform} {stored : StoredParser platform}
  {parser : ArgumentParser platform}

/-- What an option held before does not matter, nor whether there was one. -/
theorem lookup_holds (stores : Stores stored parser) (name : Text) :
    ∃ contents contents', Holds ((stored.opts.lookup name).getD {}).defaultValue contents ∧
      Holds ((stored.opts.lookup name).getD {}).value contents' := by
  have options := stores.opts.lookup name
  generalize stored.opts.lookup name = old at options ⊢
  generalize parser.opts.lookup name = option at options
  cases options with
  | none => exact ⟨none, none, .default, .default⟩
  | some isStored => exact ⟨_, _, isStored.defaultValue, isStored.value⟩

theorem addParameter_stores (stores : Stores stored parser) (parameter : TypedParameter platform) :
    Refines Stores (stored.addParameter conversions parameter)
      (.ok (parser.addParameter parameter.parameter)) := by
  refine Refines.step (ofPayload_holds conversions .lvalue parameter.type parameter.defaultValue) ?_
  intro defaultValue isDefault
  rw [← Value.stored_ofPayload] at isDefault
  have isStored : StoredOption.Stores (parameter.opts defaultValue) parameter.parameter.option := by
    refine ⟨rfl, rfl, isDefault, .default, ?_⟩
    change _ = parameter.res.map fun res => Pointer.mk (Value.ofPayload _ parameter.defaultValue).type res
    rw [Value.ofPayload_type]
    rfl
  obtain ⟨contents, contents', holds, holds'⟩ := lookup_holds stores parameter.name
  refine Refines.step (StoredOption.assign_stores holds holds' isStored) ?_
  intro option isAssigned
  refine Refines.step (StoredOption.destroyed_stores isStored) ?_
  intro _ _
  refine Refines.pure ⟨stores.opts.insert parameter.name isAssigned, ?_, stores.positionalArgs, stores.minimum⟩
  change stored.shorthandMap.insert _ _ = parser.shorthandMap.insert _ _
  rw [stores.shorthandMap]
  rfl

theorem updateOption_stores (stores : Stores stored parser) (key : Text) {option : StoredOption platform}
    {other : CmdlOption platform} (isStored : option.Stores other) :
    Stores (stored.updateOption key option) (parser.updateOption key other) :=
  ⟨stores.opts.replace key isStored, stores.shorthandMap, stores.positionalArgs, stores.minimum⟩

theorem registerCmdlOption_stores (stores : Stores stored parser) (key : Text) (argv : List (Option Text)) :
    Refines (fun made (scanned : Scanned platform) => made.returned = scanned.returned ∧
        made.argv = scanned.argv ∧ Stores made.parser scanned.parser)
      (stored.registerCmdlOption conversions key argv) (.ok (parser.registerCmdlOption key argv)) := by
  rw [registerCmdlOption, ArgumentParser.registerCmdlOption]
  by_cases empty : key = []
  · rw [if_pos empty, if_pos empty]
    exact Refines.pure ⟨rfl, rfl, stores⟩
  · rw [if_neg empty, if_neg empty]
    have options := stores.opts.lookup key
    generalize stored.opts.lookup key = option at options ⊢
    generalize parser.opts.lookup key = other at options ⊢
    cases options with
    | none => exact Refines.pure ⟨rfl, rfl, stores⟩
    | @some option other isStored =>
        have is : option.defaultValue.is .bool = decide (other.defaultValue.type = .bool) :=
          isStored.defaultValue.is (mem_valueTypes _)
        by_cases isBool : other.defaultValue.type = .bool
        · simp only [is, isBool, decide_true, if_true, dite_true]
          refine Refines.step (StoredOption.setTrue_stores isStored isBool) ?_
          intro updated isUpdated
          exact Refines.pure ⟨rfl, rfl, updateOption_stores stores key isUpdated⟩
        · simp only [is, isBool, decide_false, Bool.false_eq_true, if_false, dite_false]
          rcases argv with _ | ⟨_, _ | ⟨_ | val, rest⟩⟩
          · exact Refines.pure ⟨rfl, rfl, stores⟩
          · exact Refines.pure ⟨rfl, rfl, stores⟩
          · exact Refines.pure ⟨rfl, rfl, stores⟩
          · refine Refines.step (StoredOption.updateValue_stores isStored val) ?_
            intro updated isUpdated
            exact Refines.pure ⟨rfl, rfl, updateOption_stores stores key isUpdated⟩

theorem addPositionalParameter_stores (stores : Stores stored parser) (arg : Text) :
    Stores (stored.addPositionalParameter arg) (parser.addPositionalParameter arg) :=
  ⟨stores.opts, stores.shorthandMap, congrArg (· ++ [arg]) stores.positionalArgs, stores.minimum⟩

/-- What an argument looks like to the loop. -/
theorem dash_cases (arg : Text) :
    (∃ key, arg = '-' :: '-' :: key) ∨ (∃ c, c ≠ '-' ∧ arg = ['-', c]) ∨
      (∃ tail, arg = '-' :: tail ∧ (∀ key, tail = '-' :: key → False) ∧ ∀ c, tail = [c] → False) ∨
      ∀ tail, arg = '-' :: tail → False := by
  by_cases dashed : ∃ tail, arg = '-' :: tail
  · obtain ⟨tail, rfl⟩ := dashed
    by_cases long : ∃ key, tail = '-' :: key
    · obtain ⟨key, rfl⟩ := long
      exact .inl ⟨key, rfl⟩
    · by_cases short : ∃ c, tail = [c]
      · obtain ⟨c, rfl⟩ := short
        refine .inr (.inl ⟨c, ?_, rfl⟩)
        intro isDash
        exact long ⟨[], by rw [isDash]⟩
      · exact .inr (.inr (.inl ⟨tail, rfl, fun key same => long ⟨key, same⟩, fun c same => short ⟨c, same⟩⟩))
  · exact .inr (.inr (.inr fun tail same => dashed ⟨tail, same⟩))

/-- Both register the option, and go on together if nothing ended the parse. -/
theorem registered_stores (stores : Stores stored parser) (key : Text) (arg : Option Text)
    (rest : List (Option Text))
    (goOn : ∀ {stored' : StoredParser platform} {parser' : ArgumentParser platform}, Stores stored' parser' →
      ∀ argv, argv.length < (arg :: rest).length →
        Refines (fun made result => made.1 = result.1 ∧ Stores made.2 result.2)
          (stored'.parseArgsLoop conversions argv) (.ok (parser'.parseArgsLoop argv))) :
    Refines (fun made (result : Option Bool × ArgumentParser platform) => made.1 = result.1 ∧
        Stores made.2 result.2)
      (do
        let scanned ← stored.registerCmdlOption conversions key (arg :: rest)
        if scanned.returned = some true then scanned.parser.parseArgsLoop conversions scanned.argv.tail
        else return (scanned.returned, scanned.parser))
      (.ok (let scanned := parser.registerCmdlOption key (arg :: rest)
        if scanned.returned = some true then scanned.parser.parseArgsLoop scanned.argv.tail
        else (scanned.returned, scanned.parser))) := by
  refine Refines.step (registerCmdlOption_stores stores key (arg :: rest)) ?_
  rintro made ⟨returned, sameArgv, isStored⟩
  simp only [returned, sameArgv]
  by_cases continues : (parser.registerCmdlOption key (arg :: rest)).returned = some true
  · rw [if_pos continues, if_pos continues]
    exact goOn isStored _ (parser.registerCmdlOption_argv key arg rest)
  · rw [if_neg continues, if_neg continues]
    exact Refines.pure ⟨rfl, isStored⟩

/-- The loops go on together, over ever fewer arguments. -/
theorem parseArgsLoop_stores (stores : Stores stored parser) (argv : List (Option Text)) :
    Refines (fun made result => made.1 = result.1 ∧ Stores made.2 result.2)
      (stored.parseArgsLoop conversions argv) (.ok (parser.parseArgsLoop argv)) := by
  induction length : argv.length using Nat.strongRecOn generalizing argv stored parser with
  | ind n ih =>
      subst length
      cases argv with
      | nil =>
          rw [parseArgsLoop, ArgumentParser.parseArgsLoop]
          exact Refines.pure ⟨rfl, stores⟩
      | cons arg rest =>
          cases arg with
          | none =>
              rw [parseArgsLoop, ArgumentParser.parseArgsLoop]
              exact Refines.pure ⟨rfl, stores⟩
          | some arg =>
              have register (key : Text) := registered_stores stores key (some arg) rest
                fun isStored argv shorter => ih _ shorter isStored argv rfl
              rcases dash_cases arg with
                ⟨key, rfl⟩ | ⟨c, notDash, rfl⟩ | ⟨tail, rfl, notLong, notShort⟩ | positional
              · rw [parseArgsLoop, ArgumentParser.parseArgsLoop]
                exact register key
              · rw [parseArgsLoop, ArgumentParser.parseArgsLoop, stores.shorthandMap]
                · cases parser.shorthandMap.lookup c with
                  | none => exact Refines.pure ⟨rfl, stores⟩
                  | some key => exact register key
                all_goals exact notDash
              · rw [parseArgsLoop, ArgumentParser.parseArgsLoop]
                · exact Refines.pure ⟨rfl, stores⟩
                all_goals first | exact notLong | exact notShort
              · rw [parseArgsLoop, ArgumentParser.parseArgsLoop]
                · exact ih _ (by simp) (addPositionalParameter_stores stores arg) rest rfl
                all_goals
                  intros
                  exact positional _ ‹_›

theorem internalParseArgs_stores (stores : Stores stored parser) (argv : List (Option Text)) :
    Refines (fun made result => made.1 = result.1 ∧ Stores made.2 result.2)
      (stored.internalParseArgs conversions argv) (.ok (parser.internalParseArgs argv)) := by
  cases argv with
  | nil => exact Refines.pure ⟨rfl, stores⟩
  | cons program argv => exact parseArgsLoop_stores stores argv

theorem checkShorthands_stores (stores : Stores stored parser) :
    stored.checkShorthands = parser.checkShorthands := by
  have lengths : stored.opts.entries.length = parser.opts.entries.length := List.Forall₂.length_eq stores.opts
  have shorthands (c : Char) (key : Text) : stored.checkShorthand c key = parser.checkShorthand c key := by
    rw [checkShorthand, ArgumentParser.checkShorthand]
    have options := stores.opts.lookup key
    generalize stored.opts.lookup key = option at options ⊢
    generalize parser.opts.lookup key = other at options ⊢
    cases options with
    | none => rfl
    | some isStored => simp only [isStored.shorthand]
  rw [checkShorthands, ArgumentParser.checkShorthands, lengths, stores.shorthandMap]
  simp only [shorthands]

/-- The checks see nothing of how values are stored. -/
theorem checkParameters_stores (stores : Stores stored parser) :
    stored.checkParameters = parser.checkParameters := by
  have required : (stored.opts.entries.all fun pair => !(pair.2.required && !pair.2.value.valid)) =
      parser.opts.entries.all fun pair => !(pair.2.required && !pair.2.value.isSome) := by
    have options := stores.opts
    rw [Table.Related] at options
    generalize stored.opts.entries = entries at options ⊢
    generalize parser.opts.entries = others at options ⊢
    induction options with
    | nil => rfl
    | cons here _ ih =>
        rw [List.all_cons, List.all_cons, ih, here.2.required, here.2.value.valid, Option.isSome_map]
  rw [checkParameters, ArgumentParser.checkParameters, checkShorthands_stores stores, required,
    stores.positionalArgs, stores.minimum]

/-- Assigning one option changes none, as the model sees them. -/
theorem assignValue_stores (stores : Stores stored parser) {pair : Sigma fun _ : Text => StoredOption platform}
    {option : CmdlOption platform} (found : parser.opts.lookup pair.1 = some option)
    (isStored : pair.2.Stores option) (memory : Memory platform) :
    Refines (fun made after => Stores made.1 parser ∧ made.2 = after)
      (assignValue conversions (stored, memory) pair) (.ok (writeAll memory option.write.toList)) := by
  refine Refines.step (StoredOption.assignValueToDst_stores isStored memory) ?_
  rintro ⟨assigned, after⟩ ⟨isAssigned, same⟩
  exact Refines.pure ⟨⟨stores.opts.replace_left found isAssigned, stores.shorthandMap, stores.positionalArgs,
    stores.minimum⟩, same⟩

/-- Assigning some of the options. -/
theorem assignEach_stores {entries : List (Sigma fun _ : Text => StoredOption platform)}
    {others : List (Sigma fun _ : Text => CmdlOption platform)}
    (related : List.Forall₂ (fun entry other => entry.1 = other.1 ∧ entry.2.Stores other.2) entries others)
    (known : ∀ other ∈ others, parser.opts.lookup other.1 = some other.2) (stores : Stores stored parser)
    (memory : Memory platform) :
    Refines (fun made after => Stores made.1 parser ∧ made.2 = after)
      (entries.foldlM (assignValue conversions) (stored, memory))
      (.ok (writeAll memory (others.filterMap fun pair => pair.2.write))) := by
  induction related generalizing stored memory with
  | nil => exact Refines.pure ⟨stores, rfl⟩
  | @cons entry other entries others here _ ih =>
      rw [List.forall_mem_cons] at known
      have writes : writeAll memory ((other :: others).filterMap fun pair => pair.2.write) =
          writeAll (writeAll memory other.2.write.toList) (others.filterMap fun pair => pair.2.write) := by
        rw [← writeAll_append]
        cases written : other.2.write with
        | none => simp [written]
        | some write => simp [written]
      rw [writes, List.foldlM_cons]
      refine Refines.step (assignValue_stores stores (here.1 ▸ known.1) here.2 memory) ?_
      rintro ⟨assigned, after⟩ ⟨isAssigned, same⟩
      obtain rfl : after = _ := same
      exact ih known.2 isAssigned _

/-- `__assignValues` writes what the model says. -/
theorem assignValues_stores (stores : Stores stored parser) (memory : Memory platform) :
    Refines (fun made after => Stores made.1 parser ∧ made.2 = after)
      (stored.assignValues conversions memory) (.ok (writeAll memory parser.writes)) :=
  assignEach_stores stores.opts (fun _ member => Table.lookup_of_mem member) stores memory

theorem parseArgs_stores (stores : Stores stored parser) (argv : List (Option Text))
    (memory : Memory platform) :
    Refines (fun made (result : Result platform) => made.1 = result.returned ∧
        Stores made.2.1 result.parser ∧ made.2.2 = result.memory)
      (stored.parseArgs conversions argv memory) (.ok (parser.parseArgs argv memory)) := by
  rw [parseArgs, ArgumentParser.parseArgs]
  refine Refines.step (internalParseArgs_stores stores argv) ?_
  generalize parser.internalParseArgs argv = result
  obtain ⟨returned, next⟩ := result
  rintro ⟨returned', made⟩ ⟨same, isStored⟩
  obtain rfl : returned' = returned := same
  by_cases failed : returned' ≠ some true
  · simp only [if_pos failed]
    exact Refines.pure ⟨rfl, isStored, rfl⟩
  · simp only [if_neg failed, checkParameters_stores isStored]
    cases next.checkParameters with
    | false => exact Refines.pure ⟨rfl, isStored, rfl⟩
    | true =>
        refine Refines.step (assignValues_stores isStored memory) ?_
        rintro assigned ⟨isAssigned, sameMemory⟩
        exact Refines.pure ⟨rfl, isAssigned, sameMemory⟩

end StoredParser

end Snowlake.ArgumentParser
