import Snowlake.Lib.Table
import Snowlake.Lib.Writes
import Snowlake.Args.Values

/-! # The argument parser

`src/ArgumentParser.cpp`.  `argv` is the list of its `argc` entries, each a text
or null; a negative `argc` or a null `argv` is refused as the empty list is.
The tables are in the order in which `std::unordered_map` iterates them.
-/

namespace Snowlake

open Writes

namespace ArgumentParser

variable {platform : Platform}

/-- A variable that a parameter is assigned to. -/
abbrev Address := Nat

abbrev Memory (platform : Platform) := Address → Value platform

/-- `value` is unset, or of the type of `defaultValue`, so that `get<T>` is defined. -/
@[ext]
structure CmdlOption (platform : Platform) where
  shorthand : Char
  required : Bool
  defaultValue : Value platform
  value : Option (Value platform)
  dst : Option Address
  typed : ∀ given ∈ value, given.type = defaultValue.type

namespace CmdlOption

def updateValue (newValue : Text) (option : CmdlOption platform) : CmdlOption platform :=
  { option with
    value := some (option.defaultValue.cast newValue)
    typed := by
      intro given isValue
      obtain rfl := Option.some.inj isValue
      exact Value.cast_type newValue _ }

/-- `value.value = true`. -/
def setTrue (option : CmdlOption platform) (isBool : option.defaultValue.type = .bool) :
    CmdlOption platform :=
  { option with
    value := some (.bool true)
    typed := by
      intro given isValue
      obtain rfl := Option.some.inj isValue
      exact isBool.symm }

/-- `m_value.valid() ? m_value.get<T>() : defaultValue`. -/
def assigned (option : CmdlOption platform) : Value platform := option.value.getD option.defaultValue

/-- `*dst_ = …` of `assignValueToDst`, if `dst` is not null. -/
def write (option : CmdlOption platform) : Option (Address × Value platform) :=
  option.dst.map fun address => (address, option.assigned)

end CmdlOption

end ArgumentParser

open ArgumentParser

structure ArgumentParser (platform : Platform) where
  opts : Table Text (CmdlOption platform) := ∅
  shorthandMap : Table Char Text := ∅
  positionalArgs : List Text := []
  minPositionalArgsRequired : Nat := 0

namespace ArgumentParser

variable {platform : Platform}

/-! ## Registration -/

/-- The arguments of `addParameter`; only `help` uses the description. -/
structure Parameter (platform : Platform) where
  name : Text
  shorthand : Char
  required : Bool
  defaultValue : Value platform
  res : Option Address

def Parameter.option (parameter : Parameter platform) : CmdlOption platform where
  shorthand := parameter.shorthand
  required := parameter.required
  defaultValue := parameter.defaultValue
  value := none
  dst := parameter.res
  typed := nofun

def addParameter (parser : ArgumentParser platform) (parameter : Parameter platform) :
    ArgumentParser platform :=
  { parser with
    shorthandMap := parser.shorthandMap.insert parameter.shorthand parameter.name
    opts := parser.opts.insert parameter.name parameter.option }

def addStringParameter (parser : ArgumentParser platform) (name : Text) (shorthand : Char)
    (required : Bool) (res : Option Address) (defaultValue : Text := []) : ArgumentParser platform :=
  parser.addParameter ⟨name, shorthand, required, .string defaultValue, res⟩

def addUint32Parameter (parser : ArgumentParser platform) (name : Text) (shorthand : Char)
    (required : Bool) (res : Option Address) (defaultValue : UInt32 := 0) : ArgumentParser platform :=
  parser.addParameter ⟨name, shorthand, required, .uint32 defaultValue, res⟩

def addUint64Parameter (parser : ArgumentParser platform) (name : Text) (shorthand : Char)
    (required : Bool) (res : Option Address) (defaultValue : UInt64 := 0) : ArgumentParser platform :=
  parser.addParameter ⟨name, shorthand, required, .uint64 defaultValue, res⟩

def addFloatParameter (parser : ArgumentParser platform) (name : Text) (shorthand : Char)
    (required : Bool) (res : Option Address) (defaultValue : platform.Float) :
    ArgumentParser platform :=
  parser.addParameter ⟨name, shorthand, required, .float defaultValue, res⟩

def addDoubleParameter (parser : ArgumentParser platform) (name : Text) (shorthand : Char)
    (required : Bool) (res : Option Address) (defaultValue : platform.Double) :
    ArgumentParser platform :=
  parser.addParameter ⟨name, shorthand, required, .double defaultValue, res⟩

def addBooleanParameter (parser : ArgumentParser platform) (name : Text) (shorthand : Char)
    (required : Bool) (res : Option Address) (defaultValue : Bool := false) : ArgumentParser platform :=
  parser.addParameter ⟨name, shorthand, required, .bool defaultValue, res⟩

def setMinimumPositionalArgsRequired (parser : ArgumentParser platform) (n : Nat) :
    ArgumentParser platform :=
  { parser with minPositionalArgsRequired := n }

/-! ## Scanning -/

def optionProvided (parser : ArgumentParser platform) (name : Text) : Bool :=
  match parser.opts.lookup name with
  | none => false
  | some option => option.value.isSome

def definedBooleanOption (parser : ArgumentParser platform) (name : Text) : Bool :=
  match parser.opts.lookup name with
  | none => false
  | some option => option.defaultValue.type = .bool

def addPositionalParameter (parser : ArgumentParser platform) (arg : Text) : ArgumentParser platform :=
  { parser with positionalArgs := parser.positionalArgs ++ [arg] }

def updateOption (parser : ArgumentParser platform) (key : Text) (option : CmdlOption platform) :
    ArgumentParser platform :=
  { parser with opts := parser.opts.replace key option }

/-- What is returned, or nothing if a null pointer was made a string, and where
`argv` stands then. -/
structure Scanned (platform : Platform) where
  returned : Option Bool
  argv : List (Option Text)
  parser : ArgumentParser platform

/-- `__registerCmdlOption`; `argv` begins with the option. -/
def registerCmdlOption (parser : ArgumentParser platform) (key : Text) (argv : List (Option Text)) :
    Scanned platform :=
  if key = [] then ⟨some false, argv, parser⟩
  else
    match parser.opts.lookup key with
    | none => ⟨some false, argv, parser⟩
    | some option =>
        if isBool : option.defaultValue.type = .bool then
          ⟨some true, argv, parser.updateOption key (option.setTrue isBool)⟩
        else
          match argv.tail with
          | [] => ⟨some false, [], parser⟩
          | none :: rest => ⟨none, none :: rest, parser⟩
          | some val :: rest =>
              ⟨some true, some val :: rest, parser.updateOption key (option.updateValue val)⟩

/-- The loop goes on with fewer arguments. -/
theorem registerCmdlOption_argv (parser : ArgumentParser platform) (key : Text) (arg : Option Text)
    (rest : List (Option Text)) :
    (parser.registerCmdlOption key (arg :: rest)).argv.tail.length < (arg :: rest).length := by
  unfold registerCmdlOption
  split
  · simp
  · split
    · simp
    · split
      · simp
      · cases rest with
        | nil => simp
        | cons next rest => cases next <;> simp only [List.tail_cons, List.length_cons] <;> omega

/-- The loop of `__parseArgs`, behind the program name. -/
def parseArgsLoop (parser : ArgumentParser platform) :
    List (Option Text) → Option Bool × ArgumentParser platform
  | [] => (some true, parser)
  | none :: _ => (some false, parser)
  | some arg :: rest =>
      let register (key : Text) :=
        let scanned := parser.registerCmdlOption key (some arg :: rest)
        if scanned.returned = some true then scanned.parser.parseArgsLoop scanned.argv.tail
        else (scanned.returned, scanned.parser)
      match arg with
      | '-' :: '-' :: key => register key
      | ['-', c] =>
          match parser.shorthandMap.lookup c with
          | none => (some false, parser)
          | some key => register key
      | '-' :: _ => (some false, parser)
      | arg => (parser.addPositionalParameter arg).parseArgsLoop rest
termination_by argv => argv.length
decreasing_by
  all_goals first
    | exact registerCmdlOption_argv ..
    | simp

/-- `__parseArgs`. -/
def internalParseArgs (parser : ArgumentParser platform) :
    List (Option Text) → Option Bool × ArgumentParser platform
  | [] => (some false, parser)
  | _ :: argv => parser.parseArgsLoop argv

/-! ## The checks and the assignment -/

/-- The sanity check of one shorthand. -/
def checkShorthand (parser : ArgumentParser platform) (shorthand : Char) (optionKey : Text) : Bool :=
  match parser.opts.lookup optionKey with
  | none => false
  | some option => option.shorthand = shorthand

/-- The part of `__checkParameters` on shorthands: the sizes, and then each shorthand. -/
def checkShorthands (parser : ArgumentParser platform) : Bool :=
  parser.shorthandMap.entries.length = parser.opts.entries.length &&
    parser.shorthandMap.entries.all fun pair => parser.checkShorthand pair.1 pair.2

/-- `__checkParameters`. -/
def checkParameters (parser : ArgumentParser platform) : Bool :=
  parser.checkShorthands &&
    parser.minPositionalArgsRequired ≤ parser.positionalArgs.length &&
    parser.opts.entries.all fun pair => !(pair.2.required && !pair.2.value.isSome)

/-- What `__assignValues` writes, in this order. -/
def writes (parser : ArgumentParser platform) : List (Address × Value platform) :=
  parser.opts.entries.filterMap fun pair => pair.2.write

/-- What a call returns and leaves behind. -/
structure Result (platform : Platform) where
  returned : Option Bool
  parser : ArgumentParser platform
  memory : Memory platform

def parseArgs (parser : ArgumentParser platform) (argv : List (Option Text)) (memory : Memory platform) :
    Result platform :=
  let (returned, parser) := parser.internalParseArgs argv
  if returned ≠ some true then ⟨returned, parser, memory⟩
  else if parser.checkParameters then ⟨some true, parser, writeAll memory parser.writes⟩
  else ⟨some false, parser, memory⟩

end ArgumentParser

end Snowlake
