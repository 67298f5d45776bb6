import Snowlake.Synth.Indices
import Snowlake.Synth.Paths

/-! # Kinds of variables

Whether a variable is a vector is fixed where it is declared, by the form of a
target.  How it is used depends on other things: a range clause subscripts both
operands whatever they are, and a proposition without literal is dereferenced.
In the loop of a range clause `i` and `j` are its counters, whatever they are
outside.
-/

namespace Snowlake

open Emitted Checking Checking.Check ASTDeductionTarget

namespace Emitted

/-! ## Uses -/

/-- What a name refers to: a counter of the loop it stands in, or what the function
itself declares. -/
inductive Variable where
  | counter (name : StringType)
  | outer (name : StringType)
  deriving Repr, DecidableEq

namespace Variable

/-- The same use, in the header or the body of a loop. -/
def inLoop : Variable → Variable
  | .counter name => .counter name
  | .outer name => if name = "i" ∨ name = "j" then .counter name else .outer name

/-- One of these variables of the function. -/
def IsIn (names : List StringType) : Variable → Prop
  | .counter _ => False
  | .outer name => name ∈ names

theorem isIn_outer_iff {names : List StringType} {name : StringType} :
    (outer name).IsIn names ↔ name ∈ names := Iff.rfl

theorem isIn_inLoop_iff {names : List StringType} {name : StringType} :
    (outer name).inLoop.IsIn names ↔ name ∈ names ∧ name ≠ "i" ∧ name ≠ "j" := by
  by_cases isCounter : name = "i" ∨ name = "j"
  · rw [inLoop, if_pos isCounter]
    rcases isCounter with rfl | rfl <;> simp [IsIn]
  · rw [inLoop, if_neg isCounter, isIn_outer_iff]
    exact (and_iff_left (not_or.mp isCounter)).symm

end Variable

mutual
/-- The variables an expression applies unary `*` to. -/
def Expr.dereferenced : Expr → List StringType
  | .ident _ | .element _ _ => []
  | .deref name => [name]
  | .call _ arguments => Expr.dereferencedList arguments

def Expr.dereferencedList : List Expr → List StringType
  | [] => []
  | head :: tail => head.dereferenced ++ Expr.dereferencedList tail
end

/-- The variables an expression subscripts by a literal. -/
def Expr.subscripted (expr : Expr) : List StringType := expr.elements.map (·.1)

def Init.subscripted : Init → List StringType
  | .proof _ => []
  | .value expr => expr.subscripted

def Init.dereferenced : Init → List StringType
  | .proof _ => []
  | .value expr => expr.dereferenced

/-- With a counter the operand itself is subscripted. -/
def Operand.subscripted (operand : Operand) : List StringType :=
  operand.expr.subscripted ++ if operand.counter.isSome then operand.expr.root.toList else []

mutual
/-- The variables a statement subscripts or calls `.size()` on. -/
def Stmt.asVector : Stmt → List Variable
  | .blank | .comment _ | .setError _ | .returnDefault => []
  | .declare _ _ init => init.subscripted.map Variable.outer
  | .setup _ target | .teardown _ target => target.subscripted.map Variable.outer
  | .ifNot comparison body =>
      (comparison.lhs.subscripted ++ comparison.rhs.subscripted).map Variable.outer ++ Stmt.asVectorList body
  | .forRange _ _ bound body =>
      ((bound.root.toList ++ bound.subscripted).map Variable.outer ++ Stmt.asVectorList body).map Variable.inLoop
  | .returnValue value => value.subscripted.map Variable.outer

def Stmt.asVectorList : List Stmt → List Variable
  | [] => []
  | head :: tail => Stmt.asVector head ++ Stmt.asVectorList tail
end

mutual
/-- The variables a statement applies unary `*` to. -/
def Stmt.dereferenced : Stmt → List Variable
  | .blank | .comment _ | .returnDefault => []
  | .declare _ _ init => init.dereferenced.map Variable.outer
  | .setup _ target | .teardown _ target => target.dereferenced.map Variable.outer
  | .ifNot comparison body =>
      (comparison.lhs.expr.dereferenced ++ comparison.rhs.expr.dereferenced).map Variable.outer ++
        Stmt.dereferencedList body
  | .forRange _ _ bound body =>
      (bound.dereferenced.map Variable.outer ++ Stmt.dereferencedList body).map Variable.inLoop
  | .setError _ => [.outer Synthesizer.defaultErrorOutputParameterName]
  | .returnValue value => value.dereferenced.map Variable.outer

def Stmt.dereferencedList : List Stmt → List Variable
  | [] => []
  | head :: tail => Stmt.dereferenced head ++ Stmt.dereferencedList tail
end

/-- The variables that statements declare as `std::vector`. -/
def declaredVectors (stmts : List Stmt) : List StringType :=
  stmts.filterMap fun
    | .declare .vector name _ => some name
    | _ => none

@[simp] theorem declaredVectors_append (first second : List Stmt) :
    declaredVectors (first ++ second) = declaredVectors first ++ declaredVectors second :=
  List.filterMap_append

end Emitted

namespace Synthesizer

/-- The parameters whose type is the type class. -/
def typeClassArguments (typeCls : StringType) (defn : ASTInferenceDefn) : List StringType :=
  (defn.arguments.filter (·.typeName = typeCls)).map (·.name)

/-- A statement uses as vectors only what the body declares as such, and applies
`*` to none of the types and vectors declared before it. -/
def UsesKinds (typeCls : StringType) (defn : ASTInferenceDefn) (vectors : List StringType) (stmt : Stmt)
    (declared : List StringType) : Prop :=
  (∀ used ∈ stmt.asVector, used.IsIn vectors) ∧
    ∀ used ∈ stmt.dereferenced, ¬ used.IsIn declared ∧ ¬ used.IsIn (typeClassArguments typeCls defn)

/-- Every variable of the body is used as what it is declared as. -/
def KindCorrect (typeCls : StringType) (defn : ASTInferenceDefn) (body : List Stmt) : Prop :=
  ∀ before stmt rest, body = before ++ stmt :: rest →
    UsesKinds typeCls defn (declaredVectors body) stmt (declaredNames before)

/-- The array targets of premises without while clause. -/
def plainVectors (premises : List ASTPremiseDefn) : List StringType :=
  premises.filterMap fun
    | .inferencePremise ⟨_, .array name _, none⟩ => some name
    | _ => none

/-- What a range clause subscripts or bounds its loop by is an array target of a
premise without while clause, under another name than the counters; so is an array
whose element is returned, under any name; an array that is returned is no variable
of the body; and none is called `err` where a comparison may fail. -/
structure KindsAgree (typeCls : StringType) (defn : ASTInferenceDefn) (nameId : UInt32) : Prop where
  ranged : ∀ equality rangeClause, .inferenceEquality equality ∈ defn.allPremises →
    equality.rangeClause = some rangeClause →
    ∀ target ∈ [equality.lhs, equality.rhs, rangeClause.deductionTarget],
    ∀ name, target.declaredName = some name →
      name ∈ plainVectors defn.allPremises ∧ name ≠ "i" ∧ name ≠ "j"
  returnedElement : ∀ name index, defn.propositionDefn.target = .array name (some index) →
    name ∈ plainVectors defn.allPremises
  returnedArray : ∀ name, defn.propositionDefn.target = .array name none →
    name ∉ plainTargets defn.allPremises ∧
      name ∉ temporaries nameId (temporaryCount defn.allPremises) ∧
      name ∉ typeClassArguments typeCls defn
  reported : ∀ before premise rest, defn.allPremises = before ++ premise :: rest →
    premise.isComparison = true → defaultErrorOutputParameterName ∉ plainTargets before ∧
      defaultErrorOutputParameterName ∉ typeClassArguments typeCls defn

/-! ## Targets -/

theorem subscripted_targetExpr (target : ASTDeductionTarget) : (targetExpr target).subscripted = [] := by
  rw [Expr.subscripted, elements_targetExpr, List.map_nil]

mutual
theorem dereferenced_targetExpr (target : ASTDeductionTarget) : (targetExpr target).dereferenced = [] := by
  cases target with
  | singular | array => rfl
  | computed name arguments =>
      rw [targetExpr, Expr.dereferenced, dereferenced_targetExprs arguments]

theorem dereferenced_targetExprs (targets : List ASTDeductionTarget) :
    Expr.dereferencedList (targetExprs targets) = [] := by
  cases targets with
  | nil => rfl
  | cons head tail =>
      rw [targetExprs, Expr.dereferencedList, dereferenced_targetExpr head,
        dereferenced_targetExprs tail]
      rfl
end

theorem mem_subscripted_propositionExpr {target : ASTDeductionTarget} {name : StringType} :
    name ∈ (propositionExpr target).subscripted ↔ ∃ index, target = .array name (some index) := by
  rw [Expr.subscripted, List.mem_map]
  constructor
  · rintro ⟨⟨other, index⟩, member, rfl⟩
    exact ⟨index, (elements_propositionExpr target other index).mp member⟩
  · rintro ⟨index, same⟩
    exact ⟨(name, index), (elements_propositionExpr target name index).mpr same, rfl⟩

theorem mem_dereferenced_propositionExpr {target : ASTDeductionTarget} {name : StringType} :
    name ∈ (propositionExpr target).dereferenced ↔ target = .array name none := by
  cases target with
  | singular => simp [propositionExpr, Expr.dereferenced]
  | array other size =>
      cases size with
      | none => simp [propositionExpr, Expr.dereferenced, eq_comm]
      | some size => simp [propositionExpr, Expr.dereferenced]
  | computed other arguments => simp [propositionExpr, Expr.dereferenced, dereferenced_targetExprs]

/-! ## Premises -/

section Premises

variable {opts : Options} {typeCls : StringType} {defn : ASTInferenceDefn} {vectors : List StringType}

/-- Statements that neither branch nor declare use nothing as a vector. -/
def IdleUsesNothing (stmt : Stmt) : Prop := stmt.Idle → stmt.asVector = [] ∧ stmt.dereferenced = []

mutual
theorem idle_premiseStmts (premise : ASTPremiseDefn) (numbering : Numbering) :
    ∀ stmt ∈ premiseStmts opts premise numbering, IdleUsesNothing stmt := by
  have annotated : ∀ stmt ∈ annotationLines opts numbering, IdleUsesNothing stmt := by
    rw [annotationLines]
    split <;> simp [IdleUsesNothing, Stmt.asVector, Stmt.dereferenced]
  match premise with
  | .inferencePremise ⟨source, target, none⟩ =>
      rw [premiseStmts, List.forall_mem_append]
      refine ⟨annotated, ?_⟩
      cases target <;>
        simp [plainPremiseStmts, IdleUsesNothing, Stmt.Idle, Stmt.asVector, Stmt.dereferenced]
  | .inferencePremise ⟨source, target, some body⟩ =>
      simp only [premiseStmts, List.forall_mem_append]
      refine ⟨⟨⟨annotated, ?_⟩, idle_premiseListStmts body numbering⟩, ?_⟩
      · simp [setupStmts, IdleUsesNothing, Stmt.asVector, Stmt.dereferenced, subscripted_targetExpr,
          dereferenced_targetExpr]
      · simp [teardownStmts, IdleUsesNothing, Stmt.asVector, Stmt.dereferenced, subscripted_targetExpr,
          dereferenced_targetExpr]
  | .inferenceEquality equality =>
      rw [premiseStmts, equalityStmts]
      cases equality.rangeClause <;>
        simp [IdleUsesNothing, Stmt.Idle, Stmt.asVector, Stmt.dereferenced]

theorem idle_premiseListStmts (premises : List ASTPremiseDefn) (numbering : Numbering) :
    ∀ stmt ∈ premiseListStmts opts premises numbering, IdleUsesNothing stmt := by
  match premises with
  | [] => simp [premiseListStmts]
  | head :: tail =>
      rw [premiseListStmts, List.forall_mem_append]
      exact ⟨idle_premiseStmts head numbering, idle_premiseListStmts tail (advance head numbering)⟩
end

theorem idle_bodyStmts (nameId : UInt32) : ∀ stmt ∈ bodyStmts opts defn nameId, IdleUsesNothing stmt := by
  rw [bodyStmts, List.forall_mem_append]
  exact ⟨idle_premiseListStmts defn.premiseDefns ⟨nameId, 0⟩, by simp [IdleUsesNothing, Stmt.Idle]⟩

mutual
theorem declaredVectors_premiseStmts (premise : ASTPremiseDefn) (numbering : Numbering) :
    declaredVectors (premiseStmts opts premise numbering) = plainVectors premise.documentOrder := by
  have annotated : declaredVectors (annotationLines opts numbering) = [] := by
    rw [annotationLines]
    split <;> rfl
  match premise with
  | .inferencePremise ⟨source, target, none⟩ =>
      rw [premiseStmts, declaredVectors_append, annotated]
      cases target <;> rfl
  | .inferencePremise ⟨source, target, some body⟩ =>
      have inside := declaredVectors_premiseListStmts body numbering
      have setup : declaredVectors (setupStmts source target) = [] := rfl
      have teardown : declaredVectors (teardownStmts source target) = [] := rfl
      simp only [premiseStmts, declaredVectors_append, annotated, setup, inside, teardown, List.nil_append,
        List.append_nil]
      rw [ASTPremiseDefn.documentOrder]
      cases target <;> rfl
  | .inferenceEquality equality =>
      rw [premiseStmts, equalityStmts]
      cases equality.rangeClause <;> rfl

theorem declaredVectors_premiseListStmts (premises : List ASTPremiseDefn) (numbering : Numbering) :
    declaredVectors (premiseListStmts opts premises numbering) =
      plainVectors (ASTPremiseDefn.documentOrderList premises) := by
  match premises with
  | [] => rfl
  | head :: tail =>
      rw [premiseListStmts, declaredVectors_append, declaredVectors_premiseStmts head numbering,
        declaredVectors_premiseListStmts tail (advance head numbering),
        ASTPremiseDefn.documentOrderList, plainVectors, plainVectors, plainVectors,
        List.filterMap_append]
end

theorem declaredVectors_bodyStmts (nameId : UInt32) :
    declaredVectors (bodyStmts opts defn nameId) = plainVectors defn.allPremises := by
  rw [bodyStmts, declaredVectors_append, declaredVectors_premiseListStmts]
  exact List.append_nil _

theorem asVectorList_errorHandling : Stmt.asVectorList errorHandling = [] := rfl

theorem dereferencedList_errorHandling :
    Stmt.dereferencedList errorHandling = [.outer defaultErrorOutputParameterName] := rfl

/-- `err` is the same in a loop. -/
theorem inLoop_err : Variable.inLoop (.outer defaultErrorOutputParameterName) =
    .outer defaultErrorOutputParameterName := rfl

/-- A check dereferences `err`. -/
theorem usesKinds_check_iff {comparison : Comparison} {declared : List StringType}
    (lhs : comparison.lhs.expr.dereferenced = []) (rhs : comparison.rhs.expr.dereferenced = []) :
    UsesKinds typeCls defn vectors (.ifNot comparison errorHandling) declared ↔
      (∀ name ∈ comparison.lhs.subscripted ++ comparison.rhs.subscripted, name ∈ vectors) ∧
        defaultErrorOutputParameterName ∉ declared ∧
        defaultErrorOutputParameterName ∉ typeClassArguments typeCls defn := by
  simp only [UsesKinds, Stmt.asVector, Stmt.dereferenced, asVectorList_errorHandling,
    dereferencedList_errorHandling, lhs, rhs, List.append_nil, List.nil_append, List.map_nil,
    List.forall_mem_singleton, List.forall_mem_map, Variable.isIn_outer_iff]

/-- A statement that is idle, or uses variables as what they are. -/
def IdleOrUsesKinds (typeCls : StringType) (defn : ASTInferenceDefn) (vectors : List StringType)
    (stmt : Stmt) (declared : List StringType) : Prop :=
  stmt.Idle ∨ UsesKinds typeCls defn vectors stmt declared

theorem idleOrUsesKinds_ifNot {comparison : Comparison} {body : List Stmt} {declared : List StringType} :
    IdleOrUsesKinds typeCls defn vectors (.ifNot comparison body) declared ↔
      UsesKinds typeCls defn vectors (.ifNot comparison body) declared := or_iff_right id

theorem idleOrUsesKinds_forRange {lhsIdx rhsIdx : IntegerType} {bound : Expr} {body : List Stmt}
    {declared : List StringType} :
    IdleOrUsesKinds typeCls defn vectors (.forRange lhsIdx rhsIdx bound body) declared ↔
      UsesKinds typeCls defn vectors (.forRange lhsIdx rhsIdx bound body) declared := or_iff_right id

theorem idleOrUsesKinds_returnValue {value : Expr} {declared : List StringType} :
    IdleOrUsesKinds typeCls defn vectors (.returnValue value) declared ↔
      UsesKinds typeCls defn vectors (.returnValue value) declared := or_iff_right id

theorem idleOrUsesKinds_blank {declared : List StringType} :
    IdleOrUsesKinds typeCls defn vectors .blank declared := .inl trivial

/-- A declaration from a proof or a computed target uses nothing. -/
theorem idleOrUsesKinds_declare {type : DeclType} {name : StringType} {init : Init}
    {declared : List StringType} (subscripted : init.subscripted = [])
    (dereferenced : init.dereferenced = []) :
    IdleOrUsesKinds typeCls defn vectors (.declare type name init) declared := by
  refine .inr ⟨?_, ?_⟩
  · simp [Stmt.asVector, subscripted]
  · simp [Stmt.dereferenced, dereferenced]

/-- What a premise asks of the variables, `declared` being those before it. -/
structure PremiseKinds (typeCls : StringType) (defn : ASTInferenceDefn) (vectors : List StringType)
    (premise : ASTPremiseDefn) (declared : List StringType) : Prop where
  ranged : ∀ equality rangeClause, premise = .inferenceEquality equality →
    equality.rangeClause = some rangeClause →
    ∀ target ∈ [equality.lhs, equality.rhs, rangeClause.deductionTarget],
    ∀ name, target.declaredName = some name → name ∈ vectors ∧ name ≠ "i" ∧ name ≠ "j"
  reported : premise.isComparison = true → defaultErrorOutputParameterName ∉ declared ∧
    defaultErrorOutputParameterName ∉ typeClassArguments typeCls defn

/-- An inference premise has no range clause. -/
theorem premiseKinds_inferencePremise_iff {premise : ASTInferencePremiseDefn} {declared : List StringType} :
    PremiseKinds typeCls defn vectors (.inferencePremise premise) declared ↔
      (ASTPremiseDefn.isComparison (.inferencePremise premise) = true →
        defaultErrorOutputParameterName ∉ declared ∧
          defaultErrorOutputParameterName ∉ typeClassArguments typeCls defn) := by
  constructor
  · exact PremiseKinds.reported
  · intro reported
    refine ⟨?_, reported⟩
    intro equality rangeClause same
    cases same

theorem mem_root_targetExpr {target : ASTDeductionTarget} {name : StringType} :
    name ∈ (targetExpr target).root.toList ↔ target.declaredName = some name := by
  rw [root_targetExpr, Option.mem_toList]

/-- The target of a computed premise is compared with the proof. -/
theorem premiseMeets_kinds_computed_iff (source : ASTIdentifiable) (name : StringType)
    (arguments : List ASTDeductionTarget) (scope : Scope) :
    PremiseMeets (IdleOrUsesKinds typeCls defn vectors)
        (.inferencePremise ⟨source, .computed name arguments, none⟩) scope ↔
      defaultErrorOutputParameterName ∉ scope.declared ∧
        defaultErrorOutputParameterName ∉ typeClassArguments typeCls defn := by
  have computed : IdleOrUsesKinds typeCls defn vectors (.declare .typeClass (varName scope.nameId)
      (.value (targetExpr (.computed name arguments)))) scope.declared :=
    idleOrUsesKinds_declare (subscripted_targetExpr _) (dereferenced_targetExpr _)
  have proved (declared : List StringType) : IdleOrUsesKinds typeCls defn vectors
      (.declare .typeClass (varName (scope.nameId + 1)) (.proof source)) declared :=
    idleOrUsesKinds_declare rfl rfl
  simp only [PremiseMeets, plainPremiseStmts, Along, computed, proved, idleOrUsesKinds_blank, true_and,
    and_true]
  rw [idleOrUsesKinds_ifNot, usesKinds_check_iff rfl rfl]
  simp only [Stmt.enter, Stmt.declares, List.mem_append, List.mem_singleton,
    (varName_ne_err _).symm, or_false]
  constructor
  · rintro ⟨-, reported⟩
    exact reported
  · intro reported
    refine ⟨fun name member => ?_, reported⟩
    rcases member with left | right
    · exact absurd left List.not_mem_nil
    · exact absurd right List.not_mem_nil

theorem premiseMeets_kinds_plainEquality_iff (lhs rhs : ASTDeductionTarget) (oprt : EqualityOperator)
    (scope : Scope) :
    PremiseMeets (IdleOrUsesKinds typeCls defn vectors) (.inferenceEquality ⟨lhs, rhs, oprt, none⟩) scope ↔
      defaultErrorOutputParameterName ∉ scope.declared ∧
        defaultErrorOutputParameterName ∉ typeClassArguments typeCls defn := by
  simp only [PremiseMeets, equalityStmts, Along, and_true]
  rw [idleOrUsesKinds_ifNot,
    usesKinds_check_iff (dereferenced_targetExpr lhs) (dereferenced_targetExpr rhs)]
  simp only [Operand.subscripted, subscripted_targetExpr]
  constructor
  · rintro ⟨-, reported⟩
    exact reported
  · intro reported
    refine ⟨fun name member => ?_, reported⟩
    cases member

/-- A loop subscripts its operands and asks for the size of its bound; no counter may
be among them. -/
theorem premiseMeets_kinds_rangedEquality_iff (lhs rhs : ASTDeductionTarget) (oprt : EqualityOperator)
    (rangeClause : ASTRangeClause) (scope : Scope) :
    PremiseMeets (IdleOrUsesKinds typeCls defn vectors)
        (.inferenceEquality ⟨lhs, rhs, oprt, some rangeClause⟩) scope ↔
      (∀ target ∈ [lhs, rhs, rangeClause.deductionTarget],
        ∀ name, target.declaredName = some name → name ∈ vectors ∧ name ≠ "i" ∧ name ≠ "j") ∧
        defaultErrorOutputParameterName ∉ scope.declared ∧
        defaultErrorOutputParameterName ∉ typeClassArguments typeCls defn := by
  simp only [PremiseMeets, equalityStmts, Along, idleOrUsesKinds_blank, and_true]
  rw [idleOrUsesKinds_forRange]
  simp only [UsesKinds, Stmt.asVector, Stmt.asVectorList, Stmt.dereferenced, Stmt.dereferencedList,
    asVectorList_errorHandling, dereferencedList_errorHandling, inLoop_err, Operand.subscripted,
    subscripted_targetExpr, dereferenced_targetExpr, Option.isSome_some, if_true, List.append_nil,
    List.nil_append, List.map_nil, List.map_cons, List.forall_mem_singleton, List.forall_mem_append,
    List.forall_mem_map, Variable.isIn_inLoop_iff, Variable.isIn_outer_iff, mem_root_targetExpr]
  constructor
  · rintro ⟨⟨bound, left, right⟩, reported⟩
    refine ⟨fun target member => ?_, reported⟩
    simp only [List.mem_cons, List.not_mem_nil, or_false] at member
    rcases member with rfl | rfl | rfl
    · exact left
    · exact right
    · exact bound
  · rintro ⟨each, reported⟩
    exact ⟨⟨each _ (.tail _ (.tail _ (.head _))), each _ (.head _), each _ (.tail _ (.head _))⟩, reported⟩

theorem premiseMeets_kinds_iff (premise : ASTPremiseDefn) (scope : Scope) :
    PremiseMeets (IdleOrUsesKinds typeCls defn vectors) premise scope ↔
      PremiseKinds typeCls defn vectors premise scope.declared := by
  match premise with
  | .inferencePremise ⟨source, .singular _, none⟩ | .inferencePremise ⟨source, .array _ _, none⟩ =>
      rw [premiseKinds_inferencePremise_iff]
      constructor
      · intro _ compares
        cases compares
      · intro _
        exact ⟨idleOrUsesKinds_declare rfl rfl, idleOrUsesKinds_blank, trivial⟩
  | .inferencePremise ⟨source, .computed name arguments, none⟩ =>
      rw [premiseMeets_kinds_computed_iff, premiseKinds_inferencePremise_iff]
      constructor
      · intro reported _
        exact reported
      · intro reported
        exact reported rfl
  | .inferencePremise ⟨source, target, some body⟩ =>
      rw [premiseKinds_inferencePremise_iff]
      constructor
      · intro _ compares
        cases compares
      · intro _
        exact trivial
  | .inferenceEquality ⟨lhs, rhs, oprt, none⟩ =>
      rw [premiseMeets_kinds_plainEquality_iff]
      constructor
      · intro reported
        refine ⟨?_, fun _ => reported⟩
        rintro _ _ ⟨⟩ ⟨⟩
      · intro kinds
        exact kinds.reported rfl
  | .inferenceEquality ⟨lhs, rhs, oprt, some rangeClause⟩ =>
      rw [premiseMeets_kinds_rangedEquality_iff]
      constructor
      · rintro ⟨ranged, reported⟩
        refine ⟨?_, fun _ => reported⟩
        rintro _ _ ⟨⟩ ⟨⟩
        exact ranged
      · intro kinds
        exact ⟨kinds.ranged _ _ rfl rfl, kinds.reported rfl⟩

end Premises

/-- Idle statements use nothing, so they need not be told apart. -/
theorem kindCorrect_iff_idleOrUsesKinds (opts : Options) (typeCls : StringType) (defn : ASTInferenceDefn)
    (nameId : UInt32) :
    KindCorrect typeCls defn (bodyStmts opts defn nameId) ↔
      ∀ before stmt rest, bodyStmts opts defn nameId = before ++ stmt :: rest →
        IdleOrUsesKinds typeCls defn (plainVectors defn.allPremises) stmt (declaredNames before) := by
  rw [KindCorrect, declaredVectors_bodyStmts]
  refine forall₃_congr fun before stmt rest => forall_congr' fun split => ?_
  constructor
  · exact .inr
  · rintro (isIdle | uses)
    · obtain ⟨nothing, nothing'⟩ := idle_bodyStmts nameId stmt (by rw [split]; simp) isIdle
      exact ⟨by simp [nothing], by simp [nothing']⟩
    · exact uses

theorem idleOrUsesKinds_returned_iff (typeCls : StringType) (defn : ASTInferenceDefn) (nameId : UInt32) :
    IdleOrUsesKinds typeCls defn (plainVectors defn.allPremises)
        (.returnValue (propositionExpr defn.propositionDefn.target))
        (scopeAfter nameId defn.allPremises).declared ↔
      (∀ name index, defn.propositionDefn.target = .array name (some index) →
        name ∈ plainVectors defn.allPremises) ∧
      ∀ name, defn.propositionDefn.target = .array name none →
        name ∉ plainTargets defn.allPremises ∧
          name ∉ temporaries nameId (temporaryCount defn.allPremises) ∧
          name ∉ typeClassArguments typeCls defn := by
  rw [idleOrUsesKinds_returnValue]
  simp only [UsesKinds, Stmt.asVector, Stmt.dereferenced, List.forall_mem_map, Variable.isIn_outer_iff,
    mem_subscripted_propositionExpr, mem_dereferenced_propositionExpr, mem_scopeAfter, not_or, and_assoc,
    forall_exists_index]

/-- Variables are used as what they are declared as exactly if range clauses and
the proposition agree with the declarations, and `err` is never one of them where
a comparison may fail. -/
theorem kindCorrect_iff (opts : Options) (typeCls : StringType) (defn : ASTInferenceDefn)
    (nameId : UInt32) :
    KindCorrect typeCls defn (bodyStmts opts defn nameId) ↔ KindsAgree typeCls defn nameId := by
  have idle : ∀ stmt declared, stmt.Idle →
      IdleOrUsesKinds typeCls defn (plainVectors defn.allPremises) stmt declared :=
    fun _ _ isIdle => .inl isIdle
  rw [kindCorrect_iff_idleOrUsesKinds, bodyStmts_forall_iff opts idle defn nameId,
    idleOrUsesKinds_returned_iff]
  simp only [premiseMeets_kinds_iff]
  constructor
  · rintro ⟨premises, element, array⟩
    refine ⟨fun equality rangeClause member clause => ?_, element, array, ?_⟩
    · obtain ⟨before, rest, split⟩ := List.append_of_mem member
      exact (premises before _ rest split).ranged equality rangeClause rfl clause
    · intro before premise rest split compares
      obtain ⟨notDeclared, notArgument⟩ := (premises before premise rest split).reported compares
      exact ⟨fun target => notDeclared (mem_scopeAfter.mpr (.inl target)), notArgument⟩
  · intro agree
    refine ⟨fun before premise rest split => ⟨?_, ?_⟩, agree.returnedElement, agree.returnedArray⟩
    · rintro equality rangeClause rfl clause
      exact agree.ranged equality rangeClause (by rw [split]; simp) clause
    · intro compares
      obtain ⟨notTarget, notArgument⟩ := agree.reported before premise rest split compares
      refine ⟨fun declared => ?_, notArgument⟩
      rcases mem_scopeAfter.mp declared with target | temporary
      · exact notTarget target
      · exact err_notMem_temporaries _ _ temporary

/-- Two types are compared in a loop over an array. -/
def comparingInRange : ASTInferenceDefn where
  name := "ComparingInRange"
  globalDecls := [⟨"LEFT"⟩, ⟨"RIGHT"⟩]
  arguments := [⟨"expr", "ASTExpr"⟩]
  premiseDefns := [.inferencePremise ⟨⟨["expr", "types"]⟩, .array "Types" none, none⟩,
    .inferenceEquality ⟨.singular "LEFT", .singular "RIGHT", .operatorEq, some ⟨0, 0, .array "Types" none⟩⟩]
  propositionDefn := ⟨.array "Types" none⟩

/-- It subscripts `LEFT`, which is no vector, and returns `*Types`. -/
theorem comparingInRange_confuses_kinds :
    (SemanticAnalyzer.run ⟨true, true, false⟩ (.ofInference comparingInRange)).value = true ∧
      ¬ KindCorrect "TypeCls" comparingInRange (bodyStmts ⟨false, true, "", ""⟩ comparingInRange 0) := by
  refine ⟨by decide, fun correct => ?_⟩
  have loop := (correct [.declare .vector "Types" (.proof ⟨["expr", "types"]⟩), .blank] _ _ rfl).1
  have subscripted := Variable.isIn_outer_iff.mp (loop (.outer "LEFT") (by decide))
  exact absurd subscripted (by decide)

end Synthesizer

end Snowlake
