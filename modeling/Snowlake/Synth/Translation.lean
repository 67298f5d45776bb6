import Snowlake.Synth.Lookup
import Snowlake.Synth.Paths
import Snowlake.Synth.Semantics

/-! # The emitted statements mean what the premises say

Executing the body of a synthesized function and evaluating the premises
directly simulate each other, for any hooks: the same calls in the same order,
the same result, and stuck together.
-/

namespace Snowlake

open Emitted Simulation ASTDeductionTarget Checking.Check

/-! ## The definitions in question -/

namespace ASTDeductionTarget

mutual
/-- An array with a size literal occurs in the target. -/
def hasLiteral : ASTDeductionTarget → Bool
  | .singular _ => false
  | .array _ size => size.isSome
  | .computed _ arguments => hasLiteralList arguments

def hasLiteralList : List ASTDeductionTarget → Bool
  | [] => false
  | head :: tail => hasLiteral head || hasLiteralList tail
end

end ASTDeductionTarget

namespace ASTPremiseDefn

/-- The targets that stand in a premise, those of its while clause apart. -/
def ownTargets : ASTPremiseDefn → List ASTDeductionTarget
  | .inferencePremise defn => [defn.deductionTarget]
  | .inferenceEquality defn => defn.lhs :: defn.rhs :: (defn.rangeClause.map (·.deductionTarget)).toList

/-- An equality premise with a range clause. -/
def isRanged : ASTPremiseDefn → Bool
  | .inferencePremise _ => false
  | .inferenceEquality defn => defn.rangeClause.isSome

/-- The targets whose values a premise needs: all but the one it declares. -/
def neededTargets : ASTPremiseDefn → List ASTDeductionTarget
  | .inferencePremise ⟨_, .singular _, none⟩ | .inferencePremise ⟨_, .array _ _, none⟩ => []
  | premise => premise.ownTargets

/-- The variables whose values a premise needs. -/
def readNames (premise : ASTPremiseDefn) : List StringType :=
  (match premise with
    | .inferencePremise defn => [ASTUtils.getRootOfASTIdentifiable defn.source]
    | .inferenceEquality _ => []) ++ premise.neededTargets.flatMap mentions

end ASTPremiseDefn

/-- The variables whose values the premises and the proposition need. -/
def ASTInferenceDefn.readNames (defn : ASTInferenceDefn) : List StringType :=
  defn.allPremises.flatMap (·.readNames) ++ defn.propositionDefn.target.mentions

namespace Synthesizer

/-- An argument, a global or the target of an earlier premise without while clause. -/
def InScope (defn : ASTInferenceDefn) (before : List ASTPremiseDefn) (name : StringType) : Prop :=
  name ∈ defn.argumentNames ∨ name ∈ defn.globalNames ∨ name ∈ plainTargets before

instance (defn : ASTInferenceDefn) (before : List ASTPremiseDefn) (name : StringType) :
    Decidable (InScope defn before name) := inferInstanceAs (Decidable (_ ∨ _ ∨ _))

/-- The source of every premise starts from an argument or a global, as the
analyser makes sure. -/
def SourcesKnown (defn : ASTInferenceDefn) : Prop :=
  ∀ premise, .inferencePremise premise ∈ defn.allPremises →
    ASTUtils.getRootOfASTIdentifiable premise.source ∈ defn.globalNames ∨
      ASTUtils.getRootOfASTIdentifiable premise.source ∈ defn.argumentNames

/-- Every name read is in scope, every variable has a name of its own, and no
array is indexed. -/
structure Translatable (defn : ASTInferenceDefn) : Prop where
  noLiterals : ∀ premise ∈ defn.allPremises, ∀ target ∈ premise.ownTargets, target.hasLiteral = false
  noLiteralReturned : defn.propositionDefn.target.hasLiteral = false
  noArrayReturned : ∀ name size, defn.propositionDefn.target ≠ .array name size
  inScope : ∀ before premise rest, defn.allPremises = before ++ premise :: rest →
    ∀ target ∈ premise.neededTargets, ∀ name ∈ target.mentions, InScope defn before name
  returnedInScope : ∀ name ∈ defn.propositionDefn.target.mentions, InScope defn defn.allPremises name
  distinct : (plainTargets defn.allPremises).Nodup
  fresh : ∀ name ∈ plainTargets defn.allPremises,
    name ∉ defn.argumentNames ∧ name ∉ defn.globalNames ∧
      ∀ number : Nat, name ≠ "var" ++ toString number

/-- An argument, or a global that is read. -/
def Taken (defn : ASTInferenceDefn) (name : StringType) : Prop :=
  name ∈ defn.argumentNames ∨ (name ∈ defn.globalNames ∧ name ∈ defn.readNames)

instance (defn : ASTInferenceDefn) (name : StringType) : Decidable (Taken defn name) :=
  inferInstanceAs (Decidable (_ ∨ _ ∧ _))

/-- The names the synthesizer chooses do not capture others: temporaries, which
begin at `nameId`, the error parameter and the counters of loops. -/
structure Uncaptured (opts : Options) (defn : ASTInferenceDefn) (nameId : UInt32) : Prop where
  temporaries : ∀ name ∈ temporaries nameId (temporaryCount defn.allPremises), ¬ Taken defn name
  noWrapAround : temporaryCount defn.allPremises ≤ 2 ^ 32
  errorParameter : opts.useException = false → ¬ Taken defn defaultErrorOutputParameterName ∧
    defaultErrorOutputParameterName ∉ plainTargets defn.allPremises
  errorDeclared : opts.useException = true → ¬ defn.Compares
  counters : ∀ premise ∈ defn.allPremises, premise.isRanged = true →
    ∀ target ∈ premise.ownTargets, ∀ name ∈ target.mentions, name ≠ "i" ∧ name ≠ "j"

/-! ## Expressions -/

section Expressions

variable {σ V : Type} (hooks : Hooks σ V)

mutual
theorem evalExpr_targetExpr {read env : Env V} (target : ASTDeductionTarget)
    (agree : ∀ name ∈ target.mentions, read name = env name) (noLiteral : target.hasLiteral = false) :
    hooks.evalExpr read (targetExpr target) = hooks.evalTarget env target := by
  match target with
  | .singular name | .array name none =>
      rw [targetExpr, Hooks.evalExpr, Hooks.evalTarget, agree name (by simp [mentions])]
  | .array name (some index) => simp [hasLiteral] at noLiteral
  | .computed name arguments =>
      rw [targetExpr, Hooks.evalExpr, Hooks.evalTarget,
        evalExprs_targetExprs arguments agree noLiteral]

theorem evalExprs_targetExprs {read env : Env V} (targets : List ASTDeductionTarget)
    (agree : ∀ name ∈ mentionsList targets, read name = env name)
    (noLiteral : hasLiteralList targets = false) :
    hooks.evalExprs read (targetExprs targets) = hooks.evalTargets env targets := by
  match targets with
  | [] => rw [targetExprs, Hooks.evalExprs, Hooks.evalTargets]
  | head :: tail =>
      rw [hasLiteralList, Bool.or_eq_false_iff] at noLiteral
      rw [targetExprs, Hooks.evalExprs, Hooks.evalTargets,
        evalExpr_targetExpr head (fun name member => agree name (by simp [mentionsList, member])) noLiteral.1,
        evalExprs_targetExprs tail (fun name member => agree name (by simp [mentionsList, member]))
          noLiteral.2]
end

theorem evalSource_congr {read env : Env V} (source : ASTIdentifiable)
    (agree : read (ASTUtils.getRootOfASTIdentifiable source) =
      env (ASTUtils.getRootOfASTIdentifiable source)) :
    hooks.evalSource read source = hooks.evalSource env source := by
  rcases source with ⟨_ | ⟨root, members⟩⟩
  · rfl
  · simp only [Hooks.evalSource]
    rw [show read root = env root from agree]

end Expressions

/-! ## Frames and environments -/

namespace Frame

variable {V : Type} (frame : Frame V)

theorem lookup_declare_of_ne {name other : StringType} (distinct : other ≠ name) (binding : Binding V) :
    (frame.declare name binding).lookup other = frame.lookup other :=
  Function.update_of_ne distinct ..

theorem read_declare_self (name : StringType) (value : V) :
    (frame.declare name (.value value)).read name = some value := by
  simp [Frame.read, Frame.declare]

theorem read_declare_of_ne {name other : StringType} (distinct : other ≠ name) (binding : Binding V) :
    (frame.declare name binding).read other = frame.read other := by
  simp [Frame.read, Frame.declare, Function.update_of_ne distinct]

theorem read_hide_of_ne {name other : StringType} (distinct : other ≠ name) :
    (frame.hide name).read other = frame.read other := by
  simp [Frame.read, Frame.hide, Function.update_of_ne distinct]

theorem read_enterLoop_of_ne {other : StringType} (notI : other ≠ "i") (notJ : other ≠ "j")
    (i j : UInt64) : (frame.enterLoop i j).read other = frame.read other := by
  rw [Frame.enterLoop, read_declare_of_ne _ notJ, read_declare_of_ne _ notI]
  rfl

end Frame

/-! ## Premises -/

section Premises

variable {σ V : Type} (hooks : Hooks σ V) (opts : Options) (defn : ASTInferenceDefn) (nameId : UInt32)

/-- After the premises `before`, the statements' frame and the premises'
variables agree on all names in scope that are read. -/
structure Agrees (before : List ASTPremiseDefn) (frame : Frame V) (env : Env V) : Prop where
  read : ∀ name ∈ defn.readNames, InScope defn before name → frame.read name = env name
  declared : ∀ name ∈ frame.declared, name ∈ parameterNames opts defn ∨
    name ∈ plainTargets before ∨ name ∈ temporaries nameId (temporaryCount before)
  errorParameter : opts.useException = false →
    frame.lookup defaultErrorOutputParameterName = some .errorParameter

/-- How the statements up to a premise end, against the premises. -/
def Ends (before : List ASTPremiseDefn) : Flow V → Option (Env V) → Prop
  | .continues frame, some env => Agrees opts defn nameId before frame env
  | .returns value, none => value = hooks.defaultValue
  | _, _ => False

variable {opts defn nameId}

theorem plainTargets_append (first second : List ASTPremiseDefn) :
    plainTargets (first ++ second) = plainTargets first ++ plainTargets second :=
  List.filterMap_append

theorem mem_plainTargets_append {first second : List ASTPremiseDefn} {name : StringType} :
    name ∈ plainTargets (first ++ second) ↔ name ∈ plainTargets first ∨ name ∈ plainTargets second := by
  rw [plainTargets_append, List.mem_append]

theorem InScope.mono {before rest : List ASTPremiseDefn} {name : StringType}
    (inScope : InScope defn before name) : InScope defn (before ++ rest) name :=
  inScope.imp_right (·.imp_right fun member => mem_plainTargets_append.mpr (.inl member))

/-- No name that is read is that of a temporary. -/
theorem InScope.ne_varName {before : List ASTPremiseDefn} {name : StringType}
    (translatable : Translatable defn) (uncaptured : Uncaptured opts defn nameId)
    (inScope : InScope defn before name) (isRead : name ∈ defn.readNames)
    (earlier : ∃ rest, defn.allPremises = before ++ rest) {number : UInt32}
    (member : varName number ∈ temporaries nameId (temporaryCount defn.allPremises)) :
    name ≠ varName number := by
  rintro rfl
  obtain ⟨rest, split⟩ := earlier
  rcases inScope with argument | isGlobal | target
  · exact uncaptured.temporaries _ member (.inl argument)
  · exact uncaptured.temporaries _ member (.inr ⟨isGlobal, isRead⟩)
  · have inTargets := split ▸ mem_plainTargets_append.mpr (.inl target)
    exact (translatable.fresh _ inTargets).2.2 number.toNat rfl

/-- The source of a premise is read. -/
theorem source_mem_readNames {premise : ASTInferencePremiseDefn} {before rest : List ASTPremiseDefn}
    (split : defn.allPremises = before ++ .inferencePremise premise :: rest) :
    ASTUtils.getRootOfASTIdentifiable premise.source ∈ defn.readNames := by
  refine List.mem_append_left _ (List.mem_flatMap.mpr ⟨.inferencePremise premise, by simp [split], ?_⟩)
  exact List.mem_append_left _ (List.mem_singleton_self _)

/-- What a needed target mentions is read. -/
theorem target_mem_readNames {premise : ASTPremiseDefn} {before rest : List ASTPremiseDefn}
    (split : defn.allPremises = before ++ premise :: rest) {target : ASTDeductionTarget}
    (needed : target ∈ premise.neededTargets) {name : StringType} (mentioned : name ∈ target.mentions) :
    name ∈ defn.readNames := by
  refine List.mem_append_left _ (List.mem_flatMap.mpr ⟨premise, by simp [split], ?_⟩)
  exact List.mem_append_right _ (List.mem_flatMap.mpr ⟨target, needed, mentioned⟩)

theorem execList_append (first second : List Stmt) (frame : Frame V) :
    hooks.execList (first ++ second) frame = (do
      match ← hooks.execList first frame with
      | .continues next => hooks.execList second next
      | .returns value => pure (.returns value)) := by
  induction first generalizing frame with
  | nil => simp [Hooks.execList]
  | cons head tail ih =>
      simp only [List.cons_append, Hooks.execList, bind_assoc]
      refine bind_congr fun flow => ?_
      cases flow with
      | continues next => exact ih next
      | returns value => simp

theorem execList_annotationLines (numbering : Numbering) (frame : Frame V) :
    hooks.execList (annotationLines opts numbering) frame = pure (.continues frame) := by
  rw [annotationLines]
  split <;> simp [Hooks.execList, Hooks.exec]

/-- The branch of a failed comparison reports it and returns. -/
theorem execList_errorHandling (frame : Frame V)
    (errorParameter : frame.lookup defaultErrorOutputParameterName = some .errorParameter) :
    hooks.execList errorHandling frame = (do
      Hooks.reportError 0
      pure (.returns hooks.defaultValue)) := by
  simp [errorHandling, Hooks.execList, Hooks.exec, errorParameter]

/-- Statements that do nothing may follow. -/
theorem execList_cons_of_idle {rest : List Stmt}
    (idle : ∀ frame : Frame V, hooks.execList rest frame = pure (.continues frame)) (stmt : Stmt)
    (frame : Frame V) : hooks.execList (stmt :: rest) frame = hooks.exec stmt frame := by
  rw [Hooks.execList]
  refine (bind_congr fun flow => ?_).trans (bind_pure _)
  cases flow with
  | continues next => exact idle next
  | returns value => rfl

/-- A check reports a comparison that fails and returns. -/
theorem exec_check (frame : Frame V)
    (errorParameter : frame.lookup defaultErrorOutputParameterName = some .errorParameter)
    (comparison : Comparison) :
    hooks.exec (.ifNot comparison errorHandling) frame = (do
      if ← hooks.evalComparison frame comparison then pure (.continues frame)
      else
        Hooks.reportError 0
        pure (.returns hooks.defaultValue)) := by
  rw [Hooks.exec]
  refine bind_congr fun passed => ?_
  rw [execList_errorHandling hooks frame.enter errorParameter]
  simp only [bind_assoc, pure_bind]

theorem check_simulates {before : List ASTPremiseDefn} {frame : Frame V} {env : Env V}
    (agrees : Agrees opts defn nameId before frame env) (noException : opts.useException = false)
    {comparison : Comparison} {passed : Run σ V Bool}
    (same : hooks.evalComparison frame comparison = passed) :
    Simulates (Ends hooks opts defn nameId before) (hooks.exec (.ifNot comparison errorHandling) frame)
      (do Hooks.require (← passed) env) := by
  rw [exec_check hooks frame (agrees.errorParameter noException), same]
  refine .bind_same fun answer => ?_
  cases answer with
  | true => exact .pure agrees
  | false => exact .bind_same fun _ => .pure rfl

theorem temporaries_two (number : UInt32) :
    temporaries number 2 = [varName number, varName (number + 1)] := by
  simp [temporaries, List.range_succ]

theorem temporaryCount_append (first second : List ASTPremiseDefn) :
    temporaryCount (first ++ second) = temporaryCount first + temporaryCount second := by
  rw [temporaryCount, temporaryCount, temporaryCount, List.countP_append, Nat.mul_add]

theorem mem_temporaries_append {first second : List ASTPremiseDefn} {name : StringType}
    (member : name ∈ temporaries nameId (temporaryCount first)) :
    name ∈ temporaries nameId (temporaryCount (first ++ second)) := by
  rw [temporaryCount_append, temporaries_append]
  exact List.mem_append_left _ member

theorem mem_temporaries_of_own {first : List ASTPremiseDefn} {premise : ASTPremiseDefn}
    {number : UInt32} (numbered : number = nameId + UInt32.ofNat (temporaryCount first))
    {name : StringType} (member : name ∈ temporaries number (temporaryCount [premise])) :
    name ∈ temporaries nameId (temporaryCount (first ++ [premise])) := by
  rw [temporaryCount_append, temporaries_append, ← numbered]
  exact List.mem_append_right _ member

theorem mem_temporaries_all {before rest : List ASTPremiseDefn} {premise : ASTPremiseDefn}
    (split : defn.allPremises = before ++ premise :: rest) {number : UInt32}
    (numbered : number = nameId + UInt32.ofNat (temporaryCount before)) {name : StringType}
    (member : name ∈ temporaries number (temporaryCount [premise])) :
    name ∈ temporaries nameId (temporaryCount defn.allPremises) := by
  rw [split, List.append_cons]
  exact mem_temporaries_append (mem_temporaries_of_own numbered member)

/-- Who compares may report. -/
theorem Uncaptured.noException (uncaptured : Uncaptured opts defn nameId) {before rest : List ASTPremiseDefn}
    {premise : ASTPremiseDefn} (split : defn.allPremises = before ++ premise :: rest)
    (compares : premise.isComparison = true) : opts.useException = false := by
  by_contra exceptions
  exact uncaptured.errorDeclared (by simpa using exceptions)
    ⟨premise, show premise ∈ defn.allPremises by simp [split], compares⟩

section Leaf

variable (sources : SourcesKnown defn)
  (translatable : Translatable defn) (uncaptured : Uncaptured opts defn nameId)
  {before rest : List ASTPremiseDefn} {frame : Frame V} {env : Env V}

include sources in
theorem source_inScope {premise : ASTInferencePremiseDefn}
    (split : defn.allPremises = before ++ .inferencePremise premise :: rest) :
    InScope defn before (ASTUtils.getRootOfASTIdentifiable premise.source) := by
  rcases sources premise (by simp [split]) with isGlobal | argument
  · exact .inr (.inl isGlobal)
  · exact .inl argument

include translatable uncaptured

/-- A target that is declared has a new name. -/
theorem fresh_target {premise : ASTPremiseDefn} (split : defn.allPremises = before ++ premise :: rest)
    {name : StringType} (declares : name ∈ plainTargets [premise])
    (agrees : Agrees opts defn nameId before frame env) :
    name ∉ frame.declared ∧ ¬ InScope defn before name ∧
      (opts.useException = false → name ≠ defaultErrorOutputParameterName) := by
  have member : name ∈ plainTargets defn.allPremises := by
    rw [split, mem_plainTargets_append, plainTargets_cons, List.mem_append]
    exact .inr (.inl declares)
  obtain ⟨notArgument, notGlobal, notTemporary⟩ := translatable.fresh name member
  have notErr : opts.useException = false → name ≠ defaultErrorOutputParameterName := by
    rintro noException rfl
    exact (uncaptured.errorParameter noException).2 member
  have notEarlier : name ∉ plainTargets before := by
    have distinct := translatable.distinct
    rw [split, plainTargets_append, plainTargets_cons] at distinct
    exact fun earlier => List.disjoint_of_nodup_append distinct earlier (List.mem_append_left _ declares)
  refine ⟨fun declared => ?_, ?_, notErr⟩
  · rcases agrees.declared name declared with parameter | target | temporary
    · rcases List.mem_append.mp parameter with argument | err
      · exact notArgument argument
      · cases useException : opts.useException with
        | true => simp [useException] at err
        | false => exact notErr useException (by simpa [useException] using err)
    · exact notEarlier target
    · obtain ⟨k, -, same⟩ := List.mem_map.mp temporary
      exact notTemporary _ same.symm
  · rintro (argument | isGlobal | target)
    · exact notArgument argument
    · exact notGlobal isGlobal
    · exact notEarlier target

/-- The temporaries of a computed target have new names. -/
theorem fresh_temporaries {source : ASTIdentifiable} {name : StringType}
    {arguments : List ASTDeductionTarget}
    (split : defn.allPremises =
      before ++ .inferencePremise ⟨source, .computed name arguments, none⟩ :: rest)
    {number : UInt32} (numbered : number = nameId + UInt32.ofNat (temporaryCount before))
    (agrees : Agrees opts defn nameId before frame env) :
    varName number ∉ frame.declared ∧ varName (number + 1) ∉ frame.declared ∧
      varName (number + 1) ≠ varName number := by
  have few : temporaryCount before + 2 ≤ 2 ^ 32 := by
    have total := uncaptured.noWrapAround
    rw [split, temporaryCount, List.countP_append, List.countP_cons] at total
    simp only [usesTemporaries, isComputed, if_true] at total
    rw [temporaryCount]
    omega
  have distinct := (temporaries_nodup_iff nameId _).mpr few
  rw [temporaries_append, ← numbered, List.nodup_append] at distinct
  rw [temporaries_two] at distinct
  have fresh : ∀ later, varName later ∈ [varName number, varName (number + 1)] →
      varName later ∉ frame.declared := by
    intro later own declared
    have member : varName later ∈ temporaries number 2 := temporaries_two number ▸ own
    rcases agrees.declared _ declared with parameter | target | temporary
    · rcases List.mem_append.mp parameter with argument | err
      · exact uncaptured.temporaries _ (mem_temporaries_all split numbered member) (.inl argument)
      · cases useException : opts.useException with
        | true => simp [useException] at err
        | false => exact varName_ne_err later (by simpa [useException] using err)
    · have inTargets : varName later ∈ plainTargets defn.allPremises := by
        rw [split, mem_plainTargets_append]
        exact .inl target
      exact (translatable.fresh _ inTargets).2.2 later.toNat rfl
    · exact distinct.2.2 _ temporary _ own rfl
  refine ⟨fresh number (by simp), fresh (number + 1) (by simp), fun same => ?_⟩
  simp [same] at distinct

/-- The variable a premise declares agrees with the premise's. -/
theorem Agrees.declareTarget {premise : ASTPremiseDefn}
    (split : defn.allPremises = before ++ premise :: rest) {name : StringType}
    (declares : plainTargets [premise] = [name]) (agrees : Agrees opts defn nameId before frame env)
    (value : V) : Agrees opts defn nameId (before ++ [premise]) (frame.declare name (.value value))
      (Function.update env name (some value)) := by
  obtain ⟨-, -, notErr⟩ := fresh_target translatable uncaptured split (declares ▸ List.mem_singleton_self name)
    agrees
  constructor
  · intro other isRead inScope
    by_cases same : other = name
    · rw [same, Frame.read_declare_self, Function.update_self]
    · rw [Frame.read_declare_of_ne frame same, Function.update_of_ne same]
      refine agrees.read other isRead ?_
      simpa [InScope, mem_plainTargets_append, declares, same] using inScope
  · intro other declared
    rcases List.mem_cons.mp declared with rfl | earlier
    · exact .inr (.inl (mem_plainTargets_append.mpr (.inr (by simp [declares]))))
    · exact (agrees.declared other earlier).imp_right
        (.imp (fun target => mem_plainTargets_append.mpr (.inl target)) mem_temporaries_append)
  · intro noException
    rw [Frame.lookup_declare_of_ne _ (notErr noException).symm]
    exact agrees.errorParameter noException

/-- Temporaries are none of the premises' variables. -/
theorem Agrees.declareTemporaries {source : ASTIdentifiable} {name : StringType}
    {arguments : List ASTDeductionTarget}
    (split : defn.allPremises =
      before ++ .inferencePremise ⟨source, .computed name arguments, none⟩ :: rest)
    {number : UInt32} (numbered : number = nameId + UInt32.ofNat (temporaryCount before))
    (agrees : Agrees opts defn nameId before frame env) (computed proved : Binding V) :
    Agrees opts defn nameId (before ++ [.inferencePremise ⟨source, .computed name arguments, none⟩])
      ((frame.declare (varName number) computed).declare (varName (number + 1)) proved) env := by
  constructor
  · intro other isRead inScope
    have distinct {later : UInt32} (member : varName later ∈ temporaries number 2) :
        other ≠ varName later :=
      inScope.ne_varName translatable uncaptured isRead ⟨rest, by simp [split]⟩
        (mem_temporaries_all split numbered member)
    rw [Frame.read_declare_of_ne _ (distinct (by simp [temporaries_two])),
      Frame.read_declare_of_ne _ (distinct (by simp [temporaries_two]))]
    refine agrees.read other isRead ?_
    simpa [InScope, mem_plainTargets_append, plainTargets, declaredName] using inScope
  · intro other declared
    have own : ∀ later, varName later ∈ temporaries number 2 →
        varName later ∈ temporaries nameId (temporaryCount
          (before ++ [.inferencePremise ⟨source, .computed name arguments, none⟩])) :=
      fun later member => mem_temporaries_of_own numbered member
    rcases List.mem_cons.mp declared with rfl | declared'
    · exact .inr (.inr (own _ (by simp [temporaries_two])))
    · rcases List.mem_cons.mp declared' with rfl | earlier
      · exact .inr (.inr (own _ (by simp [temporaries_two])))
      · exact (agrees.declared other earlier).imp_right
          (.imp (fun target => mem_plainTargets_append.mpr (.inl target)) mem_temporaries_append)
  · intro noException
    rw [Frame.lookup_declare_of_ne _ (varName_ne_err _).symm,
      Frame.lookup_declare_of_ne _ (varName_ne_err _).symm]
    exact agrees.errorParameter noException

include sources in
/-- Declaring a target is proving its source and binding it. -/
theorem declare_simulates {premise : ASTInferencePremiseDefn}
    (split : defn.allPremises = before ++ .inferencePremise premise :: rest) {name : StringType}
    (declares : plainTargets [.inferencePremise premise] = [name]) (type : DeclType)
    (agrees : Agrees opts defn nameId before frame env) :
    Simulates (Ends hooks opts defn nameId (before ++ [.inferencePremise premise]))
      (hooks.execList [.declare type name (.proof premise.source), .blank] frame)
      (do
        let proved ← hooks.prove (← hooks.evalSource env premise.source)
        pure (some (Function.update env name (some (hooks.convert type proved))))) := by
  obtain ⟨undeclared, notInScope, -⟩ :=
    fresh_target translatable uncaptured split (declares ▸ List.mem_singleton_self name) agrees
  have root := source_inScope sources split
  have source : hooks.evalSource (frame.hide name).read premise.source =
      hooks.evalSource env premise.source := by
    refine evalSource_congr hooks premise.source ?_
    have distinct : ASTUtils.getRootOfASTIdentifiable premise.source ≠ name := by
      rintro rfl
      exact notInScope root
    rw [Frame.read_hide_of_ne _ distinct, agrees.read _ (source_mem_readNames split) root]
  rw [execList_cons_of_idle hooks (fun _ => by simp [Hooks.execList, Hooks.exec]), Hooks.exec,
    if_neg undeclared, Hooks.evalInit, source, bind_assoc]
  refine .bind_same fun value => .bind_same fun proved => .pure ?_
  exact agrees.declareTarget translatable uncaptured split declares _

include sources in
/-- A computed target is computed, the source is proved, and both are compared. -/
theorem computed_simulates {source : ASTIdentifiable} {name : StringType}
    {arguments : List ASTDeductionTarget}
    (split : defn.allPremises =
      before ++ .inferencePremise ⟨source, .computed name arguments, none⟩ :: rest)
    {number : UInt32} (numbered : number = nameId + UInt32.ofNat (temporaryCount before))
    (agrees : Agrees opts defn nameId before frame env) :
    Simulates
      (Ends hooks opts defn nameId (before ++ [.inferencePremise ⟨source, .computed name arguments, none⟩]))
      (hooks.execList (plainPremiseStmts number source (.computed name arguments)) frame)
      (hooks.evalPlainPremise source env (.computed name arguments)) := by
  obtain ⟨undeclared, undeclared', distinct⟩ :=
    fresh_temporaries translatable uncaptured split numbered agrees
  have noException := uncaptured.noException split rfl
  have earlier : ∃ rest, defn.allPremises = before ++ rest := ⟨_, split⟩
  have root := source_inScope sources split
  have own {later : UInt32} (member : varName later ∈ temporaries number 2) :
      varName later ∈ temporaries nameId (temporaryCount defn.allPremises) :=
    mem_temporaries_all split numbered member
  have isFirst := own (by simp [temporaries_two] : varName number ∈ temporaries number 2)
  have isSecond := own (by simp [temporaries_two] : varName (number + 1) ∈ temporaries number 2)
  have rootRead := source_mem_readNames split
  have notFirst := root.ne_varName translatable uncaptured rootRead earlier isFirst
  have notSecond := root.ne_varName translatable uncaptured rootRead earlier isSecond
  have target : hooks.evalExpr (frame.hide (varName number)).read
      (targetExpr (.computed name arguments)) = hooks.evalTarget env (.computed name arguments) := by
    refine evalExpr_targetExpr hooks _ (fun other mentioned => ?_)
      (translatable.noLiterals (.inferencePremise ⟨source, .computed name arguments, none⟩)
        (by simp [split]) _ (.head _))
    have inScope := translatable.inScope _ _ _ split _ (.head _) other mentioned
    have isRead := target_mem_readNames split (.head _) mentioned
    rw [Frame.read_hide_of_ne _ (inScope.ne_varName translatable uncaptured isRead earlier isFirst),
      agrees.read _ isRead inScope]
  rw [plainPremiseStmts, Hooks.execList, Hooks.exec, if_neg undeclared, Hooks.evalInit, target,
    bind_assoc, Hooks.evalPlainPremise]
  refine .bind_same fun computed => ?_
  have proof : hooks.evalSource ((frame.declare (varName number)
      (.value (hooks.convert .typeClass computed))).hide (varName (number + 1))).read source =
      hooks.evalSource env source := by
    refine evalSource_congr hooks source ?_
    rw [Frame.read_hide_of_ne _ notSecond, Frame.read_declare_of_ne _ notFirst, agrees.read _ rootRead root]
  simp only [pure_bind]
  rw [Hooks.execList, Hooks.exec, if_neg (by simpa [Frame.declare, distinct] using undeclared'),
    Hooks.evalInit, proof, bind_assoc, bind_assoc]
  refine .bind_same fun value => .bind_same fun proved => ?_
  simp only [pure_bind]
  rw [execList_cons_of_idle hooks fun _ => by simp [Hooks.execList, Hooks.exec]]
  refine check_simulates hooks (agrees.declareTemporaries translatable uncaptured split numbered _ _)
    noException ?_
  simp [Hooks.evalComparison, Hooks.evalOperand, Hooks.evalExpr, Hooks.lift, Frame.read_declare_self,
    Frame.read_declare_of_ne _ distinct.symm]

omit uncaptured translatable in
/-- Premises that declare nothing change nothing. -/
theorem Agrees.skip {premise : ASTPremiseDefn} (declaresNone : plainTargets [premise] = [])
    (agrees : Agrees opts defn nameId before frame env) :
    Agrees opts defn nameId (before ++ [premise]) frame env where
  read name isRead inScope := agrees.read name isRead
    (by simpa [InScope, mem_plainTargets_append, declaresNone] using inScope)
  declared name declared := (agrees.declared name declared).imp_right
    (.imp (fun target => mem_plainTargets_append.mpr (.inl target)) mem_temporaries_append)
  errorParameter := agrees.errorParameter

omit uncaptured in
/-- The operands of a premise have the same value on both sides. -/
theorem evalExpr_ownTarget {premise : ASTPremiseDefn}
    (split : defn.allPremises = before ++ premise :: rest) {read : Env V}
    (agree : ∀ target ∈ premise.neededTargets, ∀ name ∈ target.mentions, InScope defn before name →
      read name = env name) {target : ASTDeductionTarget} (own : target ∈ premise.ownTargets)
    (needed : target ∈ premise.neededTargets) :
    hooks.evalExpr read (targetExpr target) = hooks.evalTarget env target :=
  evalExpr_targetExpr hooks target
    (fun name mentioned => agree target needed name mentioned
      (translatable.inScope _ _ _ split target needed name mentioned))
    (translatable.noLiterals premise (by simp [split]) target own)

omit uncaptured translatable in
/-- A round of a loop compares two elements, and leaves if they differ. -/
theorem rangeBody_simulates (equality : ASTInferenceEqualityDefn) (i j : UInt64)
    (errorParameter : frame.lookup defaultErrorOutputParameterName = some .errorParameter)
    (lhs : hooks.evalExpr (frame.enterLoop i j).read (targetExpr equality.lhs) =
      hooks.evalTarget env equality.lhs)
    (rhs : hooks.evalExpr (frame.enterLoop i j).read (targetExpr equality.rhs) =
      hooks.evalTarget env equality.rhs) :
    Simulates (Option.Rel fun value () => value = hooks.defaultValue)
      (do
        match ← hooks.execList [.ifNot ⟨⟨targetExpr equality.lhs, some "i"⟩,
            ⟨targetExpr equality.rhs, some "j"⟩, some equality.oprt⟩ errorHandling]
          (frame.enterLoop i j) with
        | .continues _ => pure none
        | .returns value => pure (some value))
      (do
        let lhs ← hooks.element (← hooks.evalTarget env equality.lhs) i
        let rhs ← hooks.element (← hooks.evalTarget env equality.rhs) j
        match ← Hooks.require (← hooks.compare lhs rhs (some equality.oprt)) env with
        | some _ => pure none
        | none => pure (some ())) := by
  have counterI : (frame.enterLoop i j).lookup "i" = some (.counter i) := rfl
  have counterJ : (frame.enterLoop i j).lookup "j" = some (.counter j) := rfl
  rw [execList_cons_of_idle hooks fun _ => by simp [Hooks.execList],
    exec_check hooks (frame.enterLoop i j) errorParameter]
  simp only [Hooks.evalComparison, Hooks.evalOperand, lhs, rhs, counterI, counterJ, bind_assoc]
  refine .bind_same fun left => .bind_same fun leftElement => .bind_same fun right =>
    .bind_same fun rightElement => .bind_same fun passed => ?_
  cases passed with
  | true => exact .pure .none
  | false =>
      simp only [Hooks.require, Bool.false_eq_true, if_false, bind_assoc, pure_bind]
      exact .bind_same fun _ => .pure (.some rfl)

theorem equality_simulates {equality : ASTInferenceEqualityDefn}
    (split : defn.allPremises = before ++ .inferenceEquality equality :: rest)
    (agrees : Agrees opts defn nameId before frame env) :
    Simulates (Ends hooks opts defn nameId (before ++ [.inferenceEquality equality]))
      (hooks.execList (equalityStmts equality) frame) (hooks.evalEquality equality env) := by
  have noException := uncaptured.noException split rfl
  have after : Agrees opts defn nameId (before ++ [.inferenceEquality equality]) frame env :=
    agrees.skip rfl
  cases clause : equality.rangeClause with
  | none =>
      have operand : ∀ target ∈ (ASTPremiseDefn.inferenceEquality equality).ownTargets,
          hooks.evalExpr frame.read (targetExpr target) = hooks.evalTarget env target :=
        fun target own => evalExpr_ownTarget hooks translatable split
          (fun _ needed name mentioned inScope =>
            agrees.read name (target_mem_readNames split needed mentioned) inScope) own own
      simp only [equalityStmts, Hooks.evalEquality, clause]
      rw [execList_cons_of_idle hooks fun _ => by simp [Hooks.execList]]
      have checked := check_simulates hooks after noException (rfl :
        hooks.evalComparison frame ⟨⟨targetExpr equality.lhs, none⟩, ⟨targetExpr equality.rhs, none⟩,
          some equality.oprt⟩ = _)
      simpa only [Hooks.evalComparison, Hooks.evalOperand, operand equality.lhs (by simp [ASTPremiseDefn.ownTargets]),
        operand equality.rhs (by simp [ASTPremiseDefn.ownTargets]), bind_assoc, pure_bind] using checked
  | some rangeClause =>
      have ranged : rangeClause.deductionTarget ∈ (ASTPremiseDefn.inferenceEquality equality).ownTargets := by
        simp [ASTPremiseDefn.ownTargets, clause]
      have operand : ∀ i j, ∀ target ∈ (ASTPremiseDefn.inferenceEquality equality).ownTargets,
          hooks.evalExpr (frame.enterLoop i j).read (targetExpr target) = hooks.evalTarget env target := by
        intro i j target own
        refine evalExpr_ownTarget hooks translatable split (fun other member name mentioned inScope => ?_)
          own own
        obtain ⟨notI, notJ⟩ := uncaptured.counters (.inferenceEquality equality) (by simp [split])
          (by simp [ASTPremiseDefn.isRanged, clause]) other member name mentioned
        rw [Frame.read_enterLoop_of_ne _ notI notJ,
          agrees.read name (target_mem_readNames split member mentioned) inScope]
      have round : ∀ i j, Simulates (Option.Rel fun value () => value = hooks.defaultValue) _ _ :=
        fun i j => rangeBody_simulates hooks equality i j (agrees.errorParameter noException)
          (operand i j _ (by simp [ASTPremiseDefn.ownTargets]))
          (operand i j _ (by simp [ASTPremiseDefn.ownTargets]))
      simp only [equalityStmts, Hooks.evalEquality, clause]
      rw [execList_cons_of_idle hooks fun _ => by simp [Hooks.execList, Hooks.exec], Hooks.exec]
      refine (Simulates.loop (fun i j => ?_) round _ _).bind fun left failed ends => ?_
      · rw [operand i j _ ranged]
        exact .refl _
      · cases ends with
        | some isDefault => exact .pure isDefault
        | none => exact .pure after

include sources in
theorem plainPremise_simulates {source : ASTIdentifiable} {target : ASTDeductionTarget}
    (split : defn.allPremises = before ++ .inferencePremise ⟨source, target, none⟩ :: rest)
    {number : UInt32} (numbered : number = nameId + UInt32.ofNat (temporaryCount before))
    (agrees : Agrees opts defn nameId before frame env) :
    Simulates (Ends hooks opts defn nameId (before ++ [.inferencePremise ⟨source, target, none⟩]))
      (hooks.execList (plainPremiseStmts number source target) frame)
      (hooks.evalPlainPremise source env target) := by
  match target with
  | .singular name => exact declare_simulates hooks sources translatable uncaptured split rfl _ agrees
  | .array name _ => exact declare_simulates hooks sources translatable uncaptured split rfl _ agrees
  | .computed name arguments =>
      exact computed_simulates hooks sources translatable uncaptured split numbered agrees

omit uncaptured in
include sources in
/-- What sets an assumption up and tears it down evaluates the same. -/
theorem fixture_eval {source : ASTIdentifiable} {target : ASTDeductionTarget}
    {body : List ASTPremiseDefn} {later : List ASTPremiseDefn}
    (split : defn.allPremises = before ++ .inferencePremise ⟨source, target, some body⟩ :: rest)
    (agrees : Agrees opts defn nameId (before ++ later) frame env) :
    hooks.evalSource frame.read source = hooks.evalSource env source ∧
      hooks.evalExpr frame.read (targetExpr target) = hooks.evalTarget env target := by
  have needed : target ∈ (ASTPremiseDefn.inferencePremise ⟨source, target, some body⟩).neededTargets := by
    cases target <;> simp [ASTPremiseDefn.neededTargets, ASTPremiseDefn.ownTargets]
  constructor
  · exact evalSource_congr hooks source
      (agrees.read _ (source_mem_readNames split) (source_inScope sources split).mono)
  · exact evalExpr_ownTarget hooks translatable split
      (fun _ others name mentioned inScope =>
        agrees.read name (target_mem_readNames split others mentioned) inScope.mono) (.head _) needed

end Leaf

/-! ## Whole bodies -/

theorem after_nameId (premises : List ASTPremiseDefn) (scope : Scope) :
    (after enter premises scope).nameId = scope.nameId + UInt32.ofNat (temporaryCount premises) := by
  induction premises generalizing scope with
  | nil => simp [after, temporaryCount]
  | cons head tail ih =>
      have step := ih (enter head scope)
      rw [temporaryCount_cons head tail, UInt32.ofNat_add, ← UInt32.add_assoc, ← enter_nameId]
      simpa only [after, List.foldl_cons] using step

theorem advance_nameId (opts : Options) (premise : ASTPremiseDefn) (numbering : Numbering) :
    (advance premise numbering).nameId =
      numbering.nameId + UInt32.ofNat (temporaryCount premise.documentOrder) := by
  have left := (@along_premiseStmts opts (fun _ _ => True) (fun _ _ _ => trivial) premise numbering []).2
  rw [← after_nameId premise.documentOrder ⟨[], numbering.nameId⟩, left]

theorem execList_setupStmts (source : ASTIdentifiable) (target : ASTDeductionTarget) (frame : Frame V) :
    hooks.execList (setupStmts source target) frame = (do
      let sourceValue ← hooks.evalSource frame.read source
      hooks.setup sourceValue (← hooks.evalExpr frame.read (targetExpr target))
      pure (.continues frame)) := by
  simp [setupStmts, Hooks.execList, Hooks.exec]

theorem execList_teardownStmts (source : ASTIdentifiable) (target : ASTDeductionTarget) (frame : Frame V) :
    hooks.execList (teardownStmts source target) frame = (do
      let sourceValue ← hooks.evalSource frame.read source
      hooks.teardown sourceValue (← hooks.evalExpr frame.read (targetExpr target))
      pure (.continues frame)) := by
  simp [teardownStmts, Hooks.execList, Hooks.exec]

mutual
theorem premise_simulates (sources : SourcesKnown defn) (translatable : Translatable defn)
    (uncaptured : Uncaptured opts defn nameId) (premise : ASTPremiseDefn) {before rest : List ASTPremiseDefn}
    (split : defn.allPremises = before ++ (premise.documentOrder ++ rest)) (numbering : Numbering)
    (numbered : numbering.nameId = nameId + UInt32.ofNat (temporaryCount before)) {frame : Frame V}
    {env : Env V} (agrees : Agrees opts defn nameId before frame env) :
    Simulates (Ends hooks opts defn nameId (before ++ premise.documentOrder))
      (hooks.execList (premiseStmts opts premise numbering) frame) (hooks.evalPremise premise env) := by
  match premise with
  | .inferencePremise ⟨source, target, none⟩ =>
      rw [premiseStmts, execList_append, execList_annotationLines, pure_bind, Hooks.evalPremise]
      exact plainPremise_simulates hooks sources translatable uncaptured split numbered agrees
  | .inferencePremise ⟨source, target, some body⟩ =>
      have here : defn.allPremises = before ++ .inferencePremise ⟨source, target, some body⟩ ::
          (ASTPremiseDefn.documentOrderList body ++ rest) := split
      have inside : Agrees opts defn nameId
          (before ++ [.inferencePremise ⟨source, target, some body⟩]) frame env := agrees.skip rfl
      have counted : temporaryCount (before ++ [.inferencePremise ⟨source, target, some body⟩]) =
          temporaryCount before := by simp [temporaryCount, usesTemporaries]
      have outside : Agrees opts defn nameId (before ++ []) frame env := by simpa using agrees
      obtain ⟨sourceValue, targetValue⟩ := fixture_eval hooks sources translatable here outside
      have splitBody : defn.allPremises = (before ++ [.inferencePremise ⟨source, target, some body⟩]) ++
          (ASTPremiseDefn.documentOrderList body ++ rest) := by simpa using here
      have nested := premises_simulate sources translatable uncaptured body splitBody numbering (counted ▸ numbered) inside
      simp only [premiseStmts, execList_append, execList_annotationLines, pure_bind, execList_setupStmts,
        bind_assoc, sourceValue, targetValue, Hooks.evalPremise]
      refine .bind_same fun _ => .bind_same fun _ => .bind_same fun _ => ?_
      refine nested.bind fun flow result ends => ?_
      match flow, result, ends with
      | .returns value, none, isDefault => exact .pure isDefault
      | .continues next, some env', ends =>
          rw [List.append_assoc] at ends
          obtain ⟨sourceValue, targetValue⟩ := fixture_eval hooks sources translatable here ends
          simp only [execList_teardownStmts, sourceValue, targetValue]
          exact .bind_same fun _ => .bind_same fun _ => .bind_same fun _ => .pure ends
  | .inferenceEquality equality =>
      rw [premiseStmts, Hooks.evalPremise]
      exact equality_simulates hooks translatable uncaptured split agrees

theorem premises_simulate (sources : SourcesKnown defn) (translatable : Translatable defn)
    (uncaptured : Uncaptured opts defn nameId) (premises : List ASTPremiseDefn) {before rest : List ASTPremiseDefn}
    (split : defn.allPremises = before ++ (ASTPremiseDefn.documentOrderList premises ++ rest))
    (numbering : Numbering)
    (numbered : numbering.nameId = nameId + UInt32.ofNat (temporaryCount before)) {frame : Frame V}
    {env : Env V} (agrees : Agrees opts defn nameId before frame env) :
    Simulates (Ends hooks opts defn nameId (before ++ ASTPremiseDefn.documentOrderList premises))
      (hooks.execList (premiseListStmts opts premises numbering) frame)
      (hooks.evalPremises premises env) := by
  match premises with
  | [] =>
      rw [premiseListStmts, Hooks.execList, Hooks.evalPremises]
      exact .pure (by simpa [ASTPremiseDefn.documentOrderList, Ends] using agrees)
  | head :: tail =>
      rw [ASTPremiseDefn.documentOrderList, List.append_assoc] at split
      have splitTail : defn.allPremises = (before ++ head.documentOrder) ++
          (ASTPremiseDefn.documentOrderList tail ++ rest) := by simpa using split
      have first := premise_simulates sources translatable uncaptured head split numbering numbered agrees
      rw [premiseListStmts, execList_append, Hooks.evalPremises]
      refine first.bind fun flow result ends => ?_
      match flow, result, ends with
      | .returns value, none, isDefault => exact .pure isDefault
      | .continues next, some env', ends =>
          have numbered' : (advance head numbering).nameId =
              nameId + UInt32.ofNat (temporaryCount (before ++ head.documentOrder)) := by
            rw [advance_nameId opts, numbered, temporaryCount_append, UInt32.ofNat_add, UInt32.add_assoc]
          have later := premises_simulate sources translatable uncaptured tail splitTail
            (advance head numbering) numbered' ends
          rwa [List.append_assoc, ← ASTPremiseDefn.documentOrderList] at later
end

/-! ## Whole functions -/

theorem propositionExpr_eq {target : ASTDeductionTarget} (noArray : ∀ name size, target ≠ .array name size) :
    propositionExpr target = targetExpr target := by
  cases target with
  | singular | computed => rfl
  | array name size => exact absurd rfl (noArray name size)

theorem parameters_agree (uncaptured : Uncaptured opts defn nameId) (environment : StringType → V) :
    Agrees opts defn nameId [] (Hooks.parameters opts defn environment)
      (Hooks.initialEnv defn environment) where
  read name isRead inScope := by
    have visible : name ∈ defn.argumentNames ∨ name ∈ defn.globalNames := by
      simpa [InScope, plainTargets] using inScope
    have notErr : ¬ (opts.useException = false ∧ name = defaultErrorOutputParameterName) := by
      rintro ⟨noException, rfl⟩
      exact (uncaptured.errorParameter noException).1 (visible.imp_right fun isGlobal => ⟨isGlobal, isRead⟩)
    simp only [Frame.read, Hooks.parameters, Hooks.initialEnv, if_neg notErr, if_pos visible]
  declared name declared := .inl declared
  errorParameter noException := by simp [Hooks.parameters, noException]

end Premises

/-- Executing the function that is emitted for an inference of an accepted
module is evaluating its premises and its proposition: the hooks are called in
the same order on the same values, the same type is returned, a failed comparison
ends both, and both get stuck together. -/
theorem execFunction_eq {σ V : Type} (semaOpts : SemanticAnalyzer.Options) (opts : Options)
    (module : ASTModule) (accepted : (SemanticAnalyzer.run semaOpts module).value = true)
    (group : ASTInferenceGroup) (memberGroup : group ∈ module.inferenceGroups)
    (defn : ASTInferenceDefn) (member : defn ∈ group.inferenceDefns)
    (nameId : UInt32) (translatable : Translatable defn) (uncaptured : Uncaptured opts defn nameId)
    (hooks : Hooks σ V) (environment : StringType → V) :
    hooks.execFunction opts defn (bodyStmts opts defn nameId) environment =
      (·.getD hooks.defaultValue) <$> hooks.evalDefn defn environment := by
  have wellFormed := (SemanticAnalyzer.visitModule_iff semaOpts.policy module).mp accepted
  have wellFormedDefn := (wellFormed.groups group memberGroup).inferences defn member
  have parameters : (parameterNames opts defn).Nodup :=
    (parameterNames_nodup_iff opts wellFormedDefn.arguments).mpr fun noException argument =>
      (uncaptured.errorParameter noException).1 (.inl argument)
  have split : defn.allPremises = [] ++ (ASTPremiseDefn.documentOrderList defn.premiseDefns ++ []) := by
    simp [ASTInferenceDefn.allPremises]
  have numbered : nameId = nameId + UInt32.ofNat (temporaryCount []) := by simp [temporaryCount]
  have premises := premises_simulate hooks wellFormedDefn.sources translatable uncaptured defn.premiseDefns
    split ⟨nameId, 0⟩ numbered (parameters_agree uncaptured environment)
  apply Simulates.eq_map
  rw [Hooks.execFunction, if_pos parameters, bodyStmts, execList_append, bind_assoc, Hooks.evalDefn]
  refine premises.bind fun flow result ends => ?_
  cases flow with
  | returns value =>
      cases result with
      | none => exact .pure ends
      | some env => cases ends
  | continues frame =>
      cases result with
      | none => cases ends
      | some env =>
          have agrees := ends
          have returned : hooks.evalExpr frame.read (propositionExpr defn.propositionDefn.target) =
              hooks.evalTarget env defn.propositionDefn.target := by
            rw [propositionExpr_eq translatable.noArrayReturned]
            exact evalExpr_targetExpr hooks _
              (fun name mentioned => agrees.read name (List.mem_append_right _ mentioned)
                (translatable.returnedInScope name mentioned))
              translatable.noLiteralReturned
          simp only [Hooks.execList, Hooks.exec, returned, bind_assoc, pure_bind]
          exact .bind_same fun value => .pure rfl

theorem ne_temporary {name : StringType} (unlike : name.toList.take 3 ≠ ['v', 'a', 'r']) (number : Nat) :
    name ≠ "var" ++ toString number := by
  rintro rfl
  exact unlike (by simp)

theorem fresh_of_unlike {defn : ASTInferenceDefn}
    (unlike : ∀ name ∈ plainTargets defn.allPremises,
      name ∉ defn.argumentNames ∧ name ∉ defn.globalNames ∧ name.toList.take 3 ≠ ['v', 'a', 'r']) :
    ∀ name ∈ plainTargets defn.allPremises, name ∉ defn.argumentNames ∧ name ∉ defn.globalNames ∧
      ∀ number : Nat, name ≠ "var" ++ toString number :=
  fun name member => (unlike name member).imp_right (·.imp_right fun unlike' => ne_temporary unlike')

/-- Hooks that always prove `unit`, over empty arrays, and compare with one answer. -/
def unitHooks (answer : Bool) : Hooks Unit Unit where
  proofMethod _ _ := ((), ())
  typeCmpMethod _ _ _ _ := (answer, ())
  setupMethod _ _ _ := ()
  teardownMethod _ _ _ := ()
  function _ _ _ := ((), ())
  member _ _ := ()
  size _ := 0
  subscript _ _ := some ()
  convert _ _ := ()
  defaultValue := ()

/-- An accepted inference whose premises and function disagree. -/
structure Captured (opts : Options) (defn : ASTInferenceDefn) : Prop where
  accepted : (SemanticAnalyzer.run ⟨true, true, false⟩ (.ofInference defn)).value = true
  translatable : Translatable defn
  differs : ∃ hooks : Hooks Unit Unit, hooks.execFunction opts defn (bodyStmts opts defn 0) (fun _ => ()) ≠
    (·.getD hooks.defaultValue) <$> hooks.evalDefn defn fun _ => ()

/-- An argument has the name of a temporary. -/
def temporaryArgument : ASTInferenceDefn where
  name := "TemporaryArgument"
  globalDecls := []
  arguments := [⟨"var0", "ASTExpr"⟩]
  premiseDefns := [.inferencePremise ⟨⟨["var0", "type"]⟩, .computed "compute" [], none⟩]
  propositionDefn := ⟨.computed "result" []⟩

/-- A target in range has the name of a counter. -/
def counterTarget : ASTInferenceDefn where
  name := "CounterTarget"
  globalDecls := []
  arguments := [⟨"expr", "ASTExpr"⟩]
  premiseDefns := [.inferencePremise ⟨⟨["expr", "types"]⟩, .array "i" none, none⟩,
    .inferenceEquality ⟨.array "i" none, .array "i" none, .operatorEq, some ⟨0, 0, .array "i" none⟩⟩]
  propositionDefn := ⟨.computed "result" []⟩

/-- A target has the name of the error parameter. -/
def errorTarget : ASTInferenceDefn where
  name := "ErrorTarget"
  globalDecls := []
  arguments := [⟨"expr", "ASTExpr"⟩]
  premiseDefns := [.inferencePremise ⟨⟨["expr", "type"]⟩, .singular "err", none⟩]
  propositionDefn := ⟨.singular "err"⟩

/-- A comparison that may fail; with exceptions there is no error parameter. -/
def unreportable : ASTInferenceDefn where
  name := "Unreportable"
  globalDecls := []
  arguments := [⟨"expr", "ASTExpr"⟩]
  premiseDefns := [.inferencePremise ⟨⟨["expr", "type"]⟩, .computed "compute" [], none⟩]
  propositionDefn := ⟨.computed "result" []⟩

theorem ne_map_of_stuck {σ V α β : Type} {x : Run σ V α} {y : Run σ V β} (f : β → α) (world : World σ V)
    (stuck : x.run world = none) (runs : (y.run world).isSome = true) : x ≠ f <$> y := by
  rintro rfl
  rw [StateT.run_map] at stuck
  cases ran : y.run world <;> simp_all

theorem stuck_bind {σ V α β : Type} (f : α → Run σ V β) :
    (Hooks.stuck : Run σ V α) >>= f = Hooks.stuck := rfl

theorem exec_forRange_of_stuck {σ V : Type} (hooks : Hooks σ V) {bound : Expr} {frame : Frame V}
    (stuck : ∀ i j, hooks.evalExpr (frame.enterLoop i j).read bound = Hooks.stuck) (lhsIdx rhsIdx : UInt64)
    (body : List Stmt) : hooks.exec (.forRange lhsIdx rhsIdx bound body) frame = Hooks.stuck := by
  rw [Hooks.exec, countedLoop]
  simp only [stuck, stuck_bind]

theorem evalEquality_of_empty {σ V : Type} (hooks : Hooks σ V) (empty : ∀ array, hooks.size array = 0)
    (lhs rhs : ASTDeductionTarget) (oprt : EqualityOperator) (rangeClause : ASTRangeClause) (env : Env V) :
    hooks.evalEquality ⟨lhs, rhs, oprt, some rangeClause⟩ env = (do
      let _ ← hooks.evalTarget env rangeClause.deductionTarget
      pure (some env)) := by
  simp only [Hooks.evalEquality]
  rw [countedLoop]
  simp [empty]

theorem counterTarget_stuck (world : World Unit Unit) :
    ((unitHooks true).execFunction ⟨false, true, "", ""⟩ counterTarget
      (bodyStmts ⟨false, true, "", ""⟩ counterTarget 0) fun _ => ()).run world = none := by
  have loop : ∀ frame lhsIdx rhsIdx body,
      (unitHooks true).exec (.forRange lhsIdx rhsIdx (.ident "i") body) frame = Hooks.stuck :=
    fun _ => exec_forRange_of_stuck _ fun _ _ => rfl
  have parameters : (parameterNames ⟨false, true, "", ""⟩ counterTarget).Nodup := by decide
  rw [Hooks.execFunction, if_pos parameters, bodyStmts]
  simp only [counterTarget, premiseListStmts, premiseStmts, annotationLines, plainPremiseStmts, equalityStmts,
    targetExpr, if_true, List.nil_append, List.cons_append, Hooks.execList, loop, stuck_bind]
  rfl

theorem counterTarget_runs (world : World Unit Unit) :
    (((unitHooks true).evalDefn counterTarget fun _ => ()).run world).isSome = true := by
  rw [Hooks.evalDefn]
  simp only [counterTarget, Hooks.evalPremises, Hooks.evalPremise,
    evalEquality_of_empty (unitHooks true) fun _ => rfl]
  rfl

/-- Each kind of name that the synthesizer chooses may capture another. -/
theorem names_captured :
    Captured ⟨false, true, "", ""⟩ temporaryArgument ∧ Captured ⟨false, true, "", ""⟩ counterTarget ∧
      Captured ⟨false, true, "", ""⟩ errorTarget ∧ Captured ⟨true, true, "", ""⟩ unreportable := by
  have world : World Unit Unit := ⟨(), [], none⟩
  refine ⟨⟨by decide, ?_, unitHooks true, ?_⟩, ⟨by decide, ?_, unitHooks true, ?_⟩,
    ⟨by decide, ?_, unitHooks true, ?_⟩, ⟨by decide, ?_, unitHooks false, ?_⟩⟩
  · exact ⟨by decide, by decide, nofun, along_before_iff.mp (by decide), by decide, by decide, nofun⟩
  · exact ne_map_of_stuck _ world rfl rfl
  · exact ⟨by decide, by decide, nofun, along_before_iff.mp (by decide), by decide, by decide,
      fresh_of_unlike (by decide)⟩
  · exact ne_map_of_stuck _ world (counterTarget_stuck world) (counterTarget_runs world)
  · exact ⟨by decide, by decide, nofun, along_before_iff.mp (by decide), by decide, by decide,
      fresh_of_unlike (by decide)⟩
  · exact ne_map_of_stuck _ world rfl rfl
  · exact ⟨by decide, by decide, nofun, along_before_iff.mp (by decide), by decide, by decide, nofun⟩
  · exact ne_map_of_stuck _ world rfl rfl

/-- A conditional has the join of the types of its branches. -/
def conditional : ASTInferenceDefn where
  name := "Conditional"
  globalDecls := [⟨"BOOL_TYPE"⟩]
  arguments := [⟨"expr", "ASTExpr"⟩]
  premiseDefns := [
    .inferencePremise ⟨⟨["expr", "condition"]⟩, .singular "ConditionType", none⟩,
    .inferenceEquality ⟨.singular "ConditionType", .singular "BOOL_TYPE", .operatorEq, none⟩,
    .inferencePremise ⟨⟨["expr", "scope"]⟩, .singular "ConditionType", some [
      .inferencePremise ⟨⟨["expr", "branches"]⟩, .array "BranchTypes" none, none⟩,
      .inferenceEquality ⟨.array "BranchTypes" none, .array "BranchTypes" none, .operatorLte,
        some ⟨0, 0, .array "BranchTypes" none⟩⟩]⟩,
    .inferencePremise ⟨⟨["expr", "type"]⟩, .computed "join" [.array "BranchTypes" none], none⟩]
  propositionDefn := ⟨.computed "join" [.array "BranchTypes" none]⟩

/-- Hooks that number what they prove. -/
def countingHooks : Hooks Nat Nat where
  proofMethod source count := (source + count, count + 1)
  typeCmpMethod lhs rhs _ count := (lhs == rhs, count)
  setupMethod _ _ count := count + 1
  teardownMethod _ _ count := count - 1
  function _ arguments count := (arguments.sum, count)
  member value _ := value
  size value := value.toUInt64
  subscript value index := if index.toNat < value then some value else none
  convert _ value := value
  defaultValue := 0

/-- The function of `conditional` means what its premises say. -/
theorem conditional_execFunction :
    countingHooks.execFunction ⟨false, false, "", ""⟩ conditional
        (bodyStmts ⟨false, false, "", ""⟩ conditional 0) (fun _ => 2) =
      (·.getD 0) <$> countingHooks.evalDefn conditional fun _ => 2 :=
  execFunction_eq ⟨true, true, false⟩ _ (.ofInference conditional) (by decide) _ (.head _) _ (.head _) 0
    ⟨by decide, by decide, nofun, along_before_iff.mp (by decide), by decide, by decide,
      fresh_of_unlike (by decide)⟩
    ⟨by decide, by decide, by decide, fun exceptions => absurd exceptions (by decide), by decide⟩
    countingHooks fun _ => 2

end Synthesizer

end Snowlake
