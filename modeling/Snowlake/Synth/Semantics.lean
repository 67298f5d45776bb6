import Snowlake.Lib.Simulation
import Snowlake.Synth.Scoping

/-! # Two meanings of an inference definition

What the emitted statements do as C++, and what the premises say when they are
evaluated directly, in document order.  Both call the user's hooks, which are
functions on a state of their own, and both record the calls.
-/

namespace Snowlake

open Emitted Simulation

/-! ## The hooks -/

/-- The user's part of a type checker.  Values of `V` are the types it deduces,
arrays of them and the syntax it deduces them from. -/
structure Hooks (σ V : Type) where
  proofMethod : V → σ → V × σ
  /-- Without an operator the functor is `std::equal_to<>()`. -/
  typeCmpMethod : V → V → Option EqualityOperator → σ → Bool × σ
  setupMethod : V → V → σ → σ
  teardownMethod : V → V → σ → σ
  /-- The functions that computed targets call. -/
  function : StringType → List V → σ → V × σ
  member : V → StringType → V
  size : V → UInt64
  /-- Nothing if out of range. -/
  subscript : V → UInt64 → Option V
  /-- Conversion to the type of a declaration. -/
  convert : DeclType → V → V
  /-- `T()` for the type class `T`. -/
  defaultValue : V

inductive Call (V : Type) where
  | prove (source : V)
  | compare (lhs rhs : V) (oprt : Option EqualityOperator)
  | setup (source target : V)
  | teardown (source target : V)
  | compute (name : StringType) (arguments : List V)
  deriving Repr, DecidableEq

/-- The state of a run: the hooks' own, the calls so far, and what was assigned
to the caller's error code. -/
structure World (σ V : Type) where
  user : σ
  calls : List (Call V)
  error : Option Nat

/-- A run gets stuck at a subscript out of range and where C++ has no meaning for
the statements: at a name that is not declared, or declared twice. -/
abbrev Run (σ V : Type) := StateT (World σ V) Option

/-- The values of the variables. -/
abbrev Env (V : Type) := StringType → Option V

namespace Hooks

variable {σ V α : Type} (hooks : Hooks σ V)

def stuck : Run σ V α := fun _ => none

def lift : Option α → Run σ V α
  | none => stuck
  | some value => pure value

def call (event : Call V) (hook : σ → α × σ) : Run σ V α := fun world =>
  let result := hook world.user
  some (result.1, { world with user := result.2, calls := world.calls ++ [event] })

def prove (source : V) : Run σ V V := call (.prove source) (hooks.proofMethod source)

def compare (lhs rhs : V) (oprt : Option EqualityOperator) : Run σ V Bool :=
  call (.compare lhs rhs oprt) (hooks.typeCmpMethod lhs rhs oprt)

def setup (source target : V) : Run σ V Unit :=
  call (.setup source target) fun user => ((), hooks.setupMethod source target user)

def teardown (source target : V) : Run σ V Unit :=
  call (.teardown source target) fun user => ((), hooks.teardownMethod source target user)

def compute (name : StringType) (arguments : List V) : Run σ V V :=
  call (.compute name arguments) (hooks.function name arguments)

def element (value : V) (index : UInt64) : Run σ V V := lift (hooks.subscript value index)

def reportError (value : Nat) : Run σ V Unit := modify ({ · with error := some value })

/-- `a.b.c`, where `read` knows the variables. -/
def evalSource (read : Env V) (source : ASTIdentifiable) : Run σ V V :=
  match source.identifiers with
  | [] => stuck
  | root :: members => do
      let value ← lift (read root)
      pure (members.foldl hooks.member value)

/-! ## Execution of the emitted statements -/

mutual
/-- Arguments are evaluated from left to right. -/
def evalExpr (read : Env V) : Expr → Run σ V V
  | .ident name => lift (read name)
  | .element name index => do hooks.element (← lift (read name)) index
  | .deref _ => stuck
  | .call name arguments => do hooks.compute name (← evalExprs read arguments)

def evalExprs (read : Env V) : List Expr → Run σ V (List V)
  | [] => pure []
  | head :: tail => do
      let value ← evalExpr read head
      let values ← evalExprs read tail
      pure (value :: values)
end

end Hooks

/-- What a name stands for. -/
inductive Binding (V : Type) where
  | value (value : V)
  /-- A counter of a loop. -/
  | counter (value : UInt64)
  /-- The parameter `std::error_code* err`. -/
  | errorParameter

/-- The names in sight, and those declared in the innermost scope. -/
structure Frame (V : Type) where
  lookup : StringType → Option (Binding V)
  declared : List StringType

/-- How a statement ends. -/
inductive Flow (V : Type) where
  | continues (frame : Frame V)
  | returns (value : V)

namespace Frame

variable {V : Type} (frame : Frame V)

def declare (name : StringType) (binding : Binding V) : Frame V :=
  ⟨Function.update frame.lookup name (some binding), name :: frame.declared⟩

/-- A variable is in scope in its own initializer, but has no value there. -/
def hide (name : StringType) : Frame V :=
  ⟨Function.update frame.lookup name none, frame.declared⟩

/-- A nested scope. -/
def enter : Frame V := ⟨frame.lookup, []⟩

/-- The scope of a loop, which declares both counters. -/
def enterLoop (i j : UInt64) : Frame V :=
  (frame.enter.declare "i" (.counter i)).declare "j" (.counter j)

/-- The value of a variable; counters and the error parameter are no types. -/
def read (name : StringType) : Option V :=
  match frame.lookup name with
  | some (.value value) => some value
  | _ => none

end Frame

namespace Hooks

variable {σ V : Type} (hooks : Hooks σ V)

def evalInit (frame : Frame V) : Init → Run σ V V
  | .proof source => do hooks.prove (← hooks.evalSource frame.read source)
  | .value expr => hooks.evalExpr frame.read expr

def evalOperand (frame : Frame V) (operand : Operand) : Run σ V V := do
  let value ← hooks.evalExpr frame.read operand.expr
  match operand.counter with
  | none => pure value
  | some counter =>
      match frame.lookup counter with
      | some (.counter index) => hooks.element value index
      | _ => stuck

def evalComparison (frame : Frame V) (comparison : Comparison) : Run σ V Bool := do
  let lhs ← hooks.evalOperand frame comparison.lhs
  let rhs ← hooks.evalOperand frame comparison.rhs
  hooks.compare lhs rhs comparison.oprt

mutual
def exec : Stmt → Frame V → Run σ V (Flow V)
  | .blank, frame | .comment _, frame => pure (.continues frame)
  | .declare type name init, frame =>
      if name ∈ frame.declared then stuck
      else do
        let value ← hooks.evalInit (frame.hide name) init
        pure (.continues (frame.declare name (.value (hooks.convert type value))))
  | .setup source target, frame => do
      let sourceValue ← hooks.evalSource frame.read source
      hooks.setup sourceValue (← hooks.evalExpr frame.read target)
      pure (.continues frame)
  | .teardown source target, frame => do
      let sourceValue ← hooks.evalSource frame.read source
      hooks.teardown sourceValue (← hooks.evalExpr frame.read target)
      pure (.continues frame)
  | .ifNot comparison body, frame => do
      if ← hooks.evalComparison frame comparison then pure (.continues frame)
      else
        match ← execList body frame.enter with
        | .continues _ => pure (.continues frame)
        | .returns value => pure (.returns value)
  | .forRange lhsIdx rhsIdx bound body, frame => do
      let left ← countedLoop
        (fun i j => do
          let array ← hooks.evalExpr (frame.enterLoop i j).read bound
          pure (hooks.size array))
        (fun i j => do
          match ← execList body (frame.enterLoop i j) with
          | .continues _ => pure none
          | .returns value => pure (some value))
        lhsIdx rhsIdx
      match left with
      | none => pure (.continues frame)
      | some value => pure (.returns value)
  | .setError value, frame =>
      match frame.lookup Synthesizer.defaultErrorOutputParameterName with
      | some .errorParameter => do
          reportError value
          pure (.continues frame)
      | _ => stuck
  | .returnDefault, _ => pure (.returns hooks.defaultValue)
  | .returnValue value, frame => do
      let result ← hooks.evalExpr frame.read value
      pure (.returns (hooks.convert .typeClass result))

def execList : List Stmt → Frame V → Run σ V (Flow V)
  | [], frame => pure (.continues frame)
  | head :: tail, frame => do
      match ← exec head frame with
      | .continues next => execList tail next
      | .returns value => pure (.returns value)
end

/-- The scope of a function's parameters, in which its body stands. -/
def parameters (opts : Synthesizer.Options) (defn : ASTInferenceDefn) (environment : StringType → V) :
    Frame V where
  lookup name :=
    if opts.useException = false ∧ name = Synthesizer.defaultErrorOutputParameterName then
      some .errorParameter
    else if name ∈ defn.argumentNames ∨ name ∈ defn.globalNames then
      some (.value (environment name))
    else none
  declared := Synthesizer.parameterNames opts defn

/-- A call of the function of `defn`, whose arguments and globals have the
values of `environment`. -/
def execFunction (opts : Synthesizer.Options) (defn : ASTInferenceDefn) (body : List Stmt)
    (environment : StringType → V) : Run σ V V :=
  if (Synthesizer.parameterNames opts defn).Nodup then do
    match ← hooks.execList body (parameters opts defn environment) with
    | .continues _ => stuck
    | .returns value => pure value
  else stuck

/-! ## Evaluation of the premises -/

mutual
/-- An array with a literal is one of its elements. -/
def evalTarget (read : Env V) : ASTDeductionTarget → Run σ V V
  | .singular name | .array name none => lift (read name)
  | .array name (some index) => do hooks.element (← lift (read name)) index
  | .computed name arguments => do hooks.compute name (← evalTargets read arguments)

def evalTargets (read : Env V) : List ASTDeductionTarget → Run σ V (List V)
  | [] => pure []
  | head :: tail => do
      let value ← evalTarget read head
      let values ← evalTargets read tail
      pure (value :: values)
end

/-- Evaluation ends where a comparison fails, and the caller is told. -/
def require (passed : Bool) (env : Env V) : Run σ V (Option (Env V)) :=
  if passed then pure (some env)
  else do
    reportError 0
    pure none

/-- An inference premise without while clause: a target is proved and bound, a
computed target is computed, the source is proved, and both are compared. -/
def evalPlainPremise (source : ASTIdentifiable) (env : Env V) :
    ASTDeductionTarget → Run σ V (Option (Env V))
  | .computed name arguments => do
      let computed ← hooks.evalTarget env (.computed name arguments)
      let proved ← hooks.prove (← hooks.evalSource env source)
      let passed ← hooks.compare (hooks.convert .typeClass computed) (hooks.convert .typeClass proved) none
      require passed env
  | .singular name => do
      let proved ← hooks.prove (← hooks.evalSource env source)
      pure (some (Function.update env name (some (hooks.convert .typeClass proved))))
  | .array name _ => do
      let proved ← hooks.prove (← hooks.evalSource env source)
      pure (some (Function.update env name (some (hooks.convert .vector proved))))

/-- An equality premise; with a range clause, for the elements in range. -/
def evalEquality (defn : ASTInferenceEqualityDefn) (env : Env V) :
    Run σ V (Option (Env V)) :=
  match defn.rangeClause with
  | none => do
      let lhs ← hooks.evalTarget env defn.lhs
      let rhs ← hooks.evalTarget env defn.rhs
      require (← hooks.compare lhs rhs (some defn.oprt)) env
  | some rangeClause => do
      let failed ← countedLoop
        (fun _ _ => do
          let array ← hooks.evalTarget env rangeClause.deductionTarget
          pure (hooks.size array))
        (fun i j => do
          let lhs ← hooks.element (← hooks.evalTarget env defn.lhs) i
          let rhs ← hooks.element (← hooks.evalTarget env defn.rhs) j
          match ← require (← hooks.compare lhs rhs (some defn.oprt)) env with
          | some _ => pure none
          | none => pure (some ()))
        rangeClause.lhsIdx rangeClause.rhsIdx
      match failed with
      | none => pure (some env)
      | some () => pure none

mutual
/-- The variables after a premise, or nothing if a comparison failed. -/
def evalPremise : ASTPremiseDefn → Env V → Run σ V (Option (Env V))
  | .inferencePremise ⟨source, target, none⟩, env => hooks.evalPlainPremise source env target
  | .inferencePremise ⟨source, target, some body⟩, env => do
      let sourceValue ← hooks.evalSource env source
      hooks.setup sourceValue (← hooks.evalTarget env target)
      match ← evalPremises body env with
      | none => pure none
      | some env' =>
          let sourceValue ← hooks.evalSource env' source
          hooks.teardown sourceValue (← hooks.evalTarget env' target)
          pure (some env')
  | .inferenceEquality defn, env => hooks.evalEquality defn env

def evalPremises : List ASTPremiseDefn → Env V →
    Run σ V (Option (Env V))
  | [], env => pure (some env)
  | head :: tail, env => do
      match ← evalPremise head env with
      | none => pure none
      | some env' => evalPremises tail env'
end

/-- The arguments and the globals. -/
def initialEnv (defn : ASTInferenceDefn) (environment : StringType → V) : Env V :=
  fun name =>
    if name ∈ defn.argumentNames ∨ name ∈ defn.globalNames then some (environment name) else none

/-- The type an inference deduces, or nothing if a comparison failed. -/
def evalDefn (defn : ASTInferenceDefn) (environment : StringType → V) : Run σ V (Option V) := do
  match ← hooks.evalPremises defn.premiseDefns (initialEnv defn environment) with
  | none => pure none
  | some env =>
      let result ← hooks.evalTarget env defn.propositionDefn.target
      pure (some (hooks.convert .typeClass result))

end Hooks

end Snowlake
