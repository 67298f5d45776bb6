import Snowlake.Args.Specification

/-! # The command line driver

`src/CmdlDriver.cpp`: the options of the compiler, and what they are set to by a
command line, whatever the order in which the argument parser iterates its tables.
-/

namespace Snowlake

open ArgumentParser

namespace CmdlDriver

structure Options where
  warningsAsErrors : Bool := false
  bailOnFirstError : Bool := false
  debugMode : Bool := false
  verbose : Bool := false
  silent : Bool := false
  suppressAnnotationComments : Bool := false
  inputPath : Text := []
  outputPath : Text := []
  deriving Repr, DecidableEq

variable {platform : Platform}

/-! ## The members of `_opts` that parameters are assigned to -/

def outputPathAt : Address := 0
def warningsAsErrorsAt : Address := 1
def bailOnFirstErrorAt : Address := 2
def debugModeAt : Address := 3
def verboseAt : Address := 4
def silentAt : Address := 5
def suppressAnnotationCommentsAt : Address := 6

/-- The members of an `Options` that was value-initialized. -/
def initial : Memory platform := fun address => if address = outputPathAt then .string [] else .bool false

/-- The calls that `run` makes before it parses. -/
def addParameters (argparser : ArgumentParser platform) : ArgumentParser platform :=
  argparser
    |>.addStringParameter "output".toList 'o' true outputPathAt
    |>.addBooleanParameter "errors".toList 'e' false warningsAsErrorsAt false
    |>.addBooleanParameter "bail".toList 'b' false bailOnFirstErrorAt false
    |>.addBooleanParameter "debug".toList 'd' false debugModeAt false
    |>.addBooleanParameter "verbose".toList 'v' false verboseAt false
    |>.addBooleanParameter "silent".toList 's' false silentAt false
    |>.addBooleanParameter "no-annotation-comments".toList 'n' false suppressAnnotationCommentsAt false
    |>.setMinimumPositionalArgsRequired 1

variable (platform) in
def parameters : List (Parameter platform) := [
  ⟨"output".toList, 'o', true, .string [], some outputPathAt⟩,
  ⟨"errors".toList, 'e', false, .bool false, some warningsAsErrorsAt⟩,
  ⟨"bail".toList, 'b', false, .bool false, some bailOnFirstErrorAt⟩,
  ⟨"debug".toList, 'd', false, .bool false, some debugModeAt⟩,
  ⟨"verbose".toList, 'v', false, .bool false, some verboseAt⟩,
  ⟨"silent".toList, 's', false, .bool false, some silentAt⟩,
  ⟨"no-annotation-comments".toList, 'n', false, .bool false, some suppressAnnotationCommentsAt⟩]

theorem addParameters_eq : addParameters {} = register (parameters platform) 1 := rfl

theorem distinct_parameters : Distinct (parameters platform) where
  names := by
    simp only [parameters, List.map_cons, List.map_nil]
    decide
  nonempty := by
    simp only [parameters, List.forall_mem_cons]
    exact ⟨nofun, nofun, nofun, nofun, nofun, nofun, nofun, List.forall_mem_nil _⟩
  shorthands := by
    simp only [parameters, List.map_cons, List.map_nil]
    decide
  notDash := by
    simp only [parameters, List.forall_mem_cons]
    exact ⟨by decide, by decide, by decide, by decide, by decide, by decide, by decide, List.forall_mem_nil _⟩
  destinations := by
    simp only [parameters, List.filterMap_cons, List.filterMap_nil]
    decide

variable (platform) in
/-- The argument parser once the parameters were added, in any order of iteration. -/
def Registration : Type :=
  { argparser : ArgumentParser platform // Registered (parameters platform) 1 argparser }

instance : Inhabited (Registration platform) :=
  ⟨addParameters {}, by rw [addParameters_eq]; exact ⟨.rfl, .rfl, rfl, rfl⟩⟩

/-- A `bool` that a parameter is assigned to. -/
def boolAt (memory : Memory platform) (address : Address) : Bool :=
  match memory address with
  | .bool value => value
  | _ => false

def stringAt (memory : Memory platform) (address : Address) : Text :=
  match memory address with
  | .string value => value
  | _ => []

/-- The members, with the first positional argument, of which there is one. -/
def read (memory : Memory platform) (positionalArgs : List Text) : Options where
  warningsAsErrors := boolAt memory warningsAsErrorsAt
  bailOnFirstError := boolAt memory bailOnFirstErrorAt
  debugMode := boolAt memory debugModeAt
  verbose := boolAt memory verboseAt
  silent := boolAt memory silentAt
  suppressAnnotationComments := boolAt memory suppressAnnotationCommentsAt
  inputPath := positionalArgs.headD []
  outputPath := stringAt memory outputPathAt

/-- `run`: the options, or `none` after the help was printed. -/
def run (argparser : Registration platform) (argv : List Text) : Option Options :=
  let result := argparser.val.parseArgs (argv.map some) initial
  if result.returned = some true then some (read result.memory result.parser.positionalArgs) else none

/-! ## What a command line says -/

/-- The option occurs. -/
def flag (items : List Item) (name : Text) : Bool := items.any fun item => decide (item.name? = some name)

/-- The last value of the option. -/
def lastValue (items : List Item) (name : Text) : Text :=
  ((items.filterMap fun
    | .valued other _ value => if other = name then some value else none
    | _ => none).getLast?).getD []

def ofItems (items : List Item) : Options where
  warningsAsErrors := flag items "errors".toList
  bailOnFirstError := flag items "bail".toList
  debugMode := flag items "debug".toList
  verbose := flag items "verbose".toList
  silent := flag items "silent".toList
  suppressAnnotationComments := flag items "no-annotation-comments".toList
  inputPath := (positionals items).headD []
  outputPath := lastValue items "output".toList

variable (platform) in
/-- What the command line means: options and arguments that fit the parameters. -/
def Means (argv : List Text) (opts : Options) : Prop :=
  ∃ items, Satisfies (parameters platform) 1 argv items ∧ opts = ofItems items

section Given

variable {parameters : List (Parameter platform)} {items : List Item} {parameter : Parameter platform}

/-- An item that names a parameter is of its kind. -/
theorem kind_of_name (distinct : Distinct parameters) (member : parameter ∈ parameters) {item : Item}
    (valid : item.OfParameters parameters) (named : item.name? = some parameter.name) :
    (parameter.defaultValue.type = .bool ∧ ∃ spelling, item = .boolean parameter.name spelling) ∨
      (parameter.defaultValue.type ≠ .bool ∧
        ∃ spelling value, item = .valued parameter.name spelling value) := by
  have unique (other : Parameter platform) (inParameters : other ∈ parameters)
      (sameName : other.name = parameter.name) : other = parameter :=
    List.inj_on_of_nodup_map distinct.names inParameters member sameName
  cases item with
  | positional => cases named
  | boolean name spelling =>
      obtain ⟨other, inParameters, sameName, -, isBool⟩ := valid
      obtain rfl := Option.some.inj named
      rw [unique other inParameters sameName] at isBool
      exact .inl ⟨isBool, spelling, rfl⟩
  | valued name spelling value =>
      obtain ⟨other, inParameters, sameName, -, notBool⟩ := valid
      obtain rfl := Option.some.inj named
      rw [unique other inParameters sameName] at notBool
      exact .inr ⟨notBool, spelling, value, rfl⟩

theorem flag_iff (items : List Item) (name : Text) : flag items name = true ↔ Occurs name items := by
  simp [flag, Occurs]

theorem given_bool (distinct : Distinct parameters) (member : parameter ∈ parameters)
    (valid : ∀ item ∈ items, item.OfParameters parameters) (isBool : parameter.defaultValue = .bool false) :
    (given items parameter.name parameter.defaultValue).getD parameter.defaultValue =
      .bool (flag items parameter.name) := by
  have occurs := given_isSome_iff items parameter.name parameter.defaultValue
  rw [← flag_iff] at occurs
  cases isGiven : given items parameter.name parameter.defaultValue with
  | none =>
      rw [isGiven] at occurs
      rw [Option.getD_none, isBool, Bool.eq_false_iff.mpr (fun isFlag => nomatch occurs.mpr isFlag)]
  | some value =>
      rw [isGiven] at occurs
      obtain ⟨item, inItems, isValue⟩ := List.mem_filterMap.mp (List.mem_of_getLast? isGiven)
      have named : item.name? = some parameter.name := by
        cases item with
        | positional => cases isValue
        | boolean other | valued other =>
            by_cases same : other = parameter.name
            · exact congrArg some same
            · simp [Item.value?, same] at isValue
      rcases kind_of_name distinct member (valid item inItems) named with ⟨-, _, rfl⟩ | ⟨notBool, -⟩
      · rw [Item.value?, if_pos rfl] at isValue
        rw [Option.getD_some, ← Option.some.inj isValue, occurs.mp rfl]
      · exact absurd (isBool ▸ rfl) notBool

theorem given_string (distinct : Distinct parameters) (member : parameter ∈ parameters)
    (valid : ∀ item ∈ items, item.OfParameters parameters) (isString : parameter.defaultValue = .string []) :
    (given items parameter.name parameter.defaultValue).getD parameter.defaultValue =
      .string (lastValue items parameter.name) := by
  have values : items.filterMap (Item.value? parameter.name parameter.defaultValue) =
      (items.filterMap fun
        | .valued other _ value => if other = parameter.name then some value else none
        | _ => none).map .string := by
    rw [List.map_filterMap]
    refine List.filterMap_congr fun item inItems => ?_
    cases item with
    | positional => rfl
    | boolean other spelling =>
        by_cases same : other = parameter.name
        · subst same
          rcases kind_of_name distinct member (valid _ inItems) rfl with ⟨isBool, -⟩ | ⟨-, _, _, same⟩
          · rw [isString] at isBool
            cases isBool
          · cases same
        · simp [Item.value?, same]
    | valued other spelling value =>
        by_cases same : other = parameter.name <;> simp [Item.value?, same, isString, Value.cast]
  rw [given, values, List.getLast?_map, isString, lastValue]
  cases (items.filterMap _).getLast? <;> rfl

end Given

/-- The members once a command line was parsed. -/
theorem read_eq_ofItems (argparser : Registration platform) {argv : List Text} {items : List Item}
    (satisfies : Satisfies (parameters platform) 1 argv items) :
    read (argparser.val.parseArgs (argv.map some) initial).memory
        (argparser.val.parseArgs (argv.map some) initial).parser.positionalArgs = ofItems items := by
  have assigns := parseArgs_assigns distinct_parameters argparser.property initial satisfies
  obtain ⟨_, _, -, splits⟩ := satisfies.splits
  have bool (name : Text) (shorthand : Char) {address : Address}
      (member : ⟨name, shorthand, false, .bool false, some address⟩ ∈ parameters platform) :
      boolAt (argparser.val.parseArgs (argv.map some) initial).memory address = flag items name := by
    rw [boolAt, assigns.destinations _ member address rfl,
      given_bool distinct_parameters member splits.valid rfl]
  have string : stringAt (argparser.val.parseArgs (argv.map some) initial).memory outputPathAt =
      lastValue items "output".toList := by
    have member : ⟨"output".toList, 'o', true, .string [], some outputPathAt⟩ ∈
        parameters platform := List.mem_cons_self
    rw [stringAt, assigns.destinations _ member outputPathAt rfl,
      given_string distinct_parameters member splits.valid rfl]
  rw [read, bool "errors".toList 'e' (by simp [parameters]),
    bool "bail".toList 'b' (by simp [parameters]),
    bool "debug".toList 'd' (by simp [parameters]),
    bool "verbose".toList 'v' (by simp [parameters]),
    bool "silent".toList 's' (by simp [parameters]),
    bool "no-annotation-comments".toList 'n' (by simp [parameters]),
    string, assigns.positionalArgs]
  rfl

theorem means_of_run (argparser : Registration platform) {argv : List Text} {opts : Options}
    (ran : run argparser argv = some opts) : Means platform argv opts := by
  rw [run] at ran
  split at ran
  · rename_i returned
    obtain ⟨items, satisfies⟩ :=
      (parseArgs_satisfies_iff distinct_parameters argparser.property initial argv).mp returned
    rw [read_eq_ofItems argparser satisfies] at ran
    exact ⟨items, satisfies, (Option.some.inj ran).symm⟩
  · cases ran

theorem run_of_means (argparser : Registration platform) {argv : List Text} {opts : Options}
    (meant : Means platform argv opts) : run argparser argv = some opts := by
  obtain ⟨items, satisfies, rfl⟩ := meant
  have returned :=
    (parseArgs_satisfies_iff distinct_parameters argparser.property initial argv).mpr ⟨items, satisfies⟩
  rw [run, if_pos returned, read_eq_ofItems argparser satisfies]

/-- The driver takes the command lines that mean something, and it does what they
mean in whatever order the tables are iterated. -/
theorem run_eq_some_iff (argparser : Registration platform) (argv : List Text) (opts : Options) :
    run argparser argv = some opts ↔ Means platform argv opts :=
  ⟨means_of_run argparser, run_of_means argparser⟩

end CmdlDriver

end Snowlake
