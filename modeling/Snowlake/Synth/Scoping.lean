import Snowlake.Synth.Reading
import Snowlake.Sema.WellFormed
import Mathlib.Data.List.Nodup

/-! # Names in a synthesized function

Every declaration of a function body stands in the function's own scope, while
clauses open none.  The scope grows along the statements; here it is followed
along the premises instead, in document order, and it is settled when a name is
declared twice.
-/

namespace Snowlake

open Emitted Checking Checking.Check ASTDeductionTarget

/-! ## Statements -/

namespace Emitted

/-- What a statement declares in the scope it stands in. -/
def Stmt.declares : Stmt → List StringType
  | .declare _ name _ => [name]
  | _ => []

/-- The names that statements declare, in order. -/
def declaredNames (stmts : List Stmt) : List StringType := stmts.flatMap Stmt.declares

mutual
/-- The names declared in each of the scopes a statement opens. -/
def Stmt.scopes : Stmt → List (List StringType)
  | .ifNot _ body => declaredNames body :: Stmt.scopesList body
  | .forRange _ _ _ body => ("i" :: "j" :: declaredNames body) :: Stmt.scopesList body
  | _ => []

def Stmt.scopesList : List Stmt → List (List StringType)
  | [] => []
  | head :: tail => Stmt.scopes head ++ Stmt.scopesList tail
end

theorem Stmt.scopesList_append (first second : List Stmt) :
    Stmt.scopesList (first ++ second) = Stmt.scopesList first ++ Stmt.scopesList second := by
  induction first with
  | nil => rfl
  | cons head tail ih => simp only [List.cons_append, Stmt.scopesList, ih, List.append_assoc]

/-- A statement whose names are none of this module's concern. -/
def Stmt.Idle : Stmt → Prop
  | .blank | .comment _ | .setup _ _ | .teardown _ _ => True
  | _ => False

def Stmt.enter (stmt : Stmt) (declared : List StringType) : List StringType :=
  declared ++ stmt.declares

theorem after_enter (stmts : List Stmt) (declared : List StringType) :
    after Stmt.enter stmts declared = declared ++ declaredNames stmts := by
  induction stmts generalizing declared with
  | nil => simp [after, declaredNames]
  | cons head tail ih =>
      have step := ih (head.enter declared)
      simp only [after, List.foldl_cons] at step ⊢
      rw [step, Stmt.enter, declaredNames, declaredNames, List.flatMap_cons, List.append_assoc]

end Emitted

namespace Synthesizer

/-! ## Premises -/

/-- The names declared so far, and the number of the next temporary. -/
structure Scope where
  declared : List StringType
  nameId : UInt32

/-- What the statements of a premise declare, those of its while clause apart. -/
def premiseDeclares (nameId : UInt32) : ASTPremiseDefn → List StringType
  | .inferencePremise ⟨_, .singular name, none⟩ | .inferencePremise ⟨_, .array name _, none⟩ => [name]
  | .inferencePremise ⟨_, .computed _ _, none⟩ => [varName nameId, varName (nameId + 1)]
  | .inferencePremise ⟨_, _, some _⟩ | .inferenceEquality _ => []

/-- An inference premise with a computed target and no while clause. -/
def usesTemporaries : ASTPremiseDefn → Bool
  | .inferencePremise ⟨_, target, none⟩ => target.isComputed
  | .inferencePremise ⟨_, _, some _⟩ | .inferenceEquality _ => false

def enter (premise : ASTPremiseDefn) (scope : Scope) : Scope where
  declared := scope.declared ++ premiseDeclares scope.nameId premise
  nameId := if usesTemporaries premise then scope.nameId + 1 + 1 else scope.nameId

/-- The statements of a premise, while clauses apart, meet a condition. -/
def PremiseMeets (condition : Stmt → List StringType → Prop) : ASTPremiseDefn → Scope → Prop
  | .inferencePremise ⟨source, target, none⟩, scope =>
      Along condition Stmt.enter (plainPremiseStmts scope.nameId source target) scope.declared
  | .inferencePremise ⟨_, _, some _⟩, _ => True
  | .inferenceEquality defn, scope =>
      Along condition Stmt.enter (equalityStmts defn) scope.declared

section Transfer

variable (opts : Options) {condition : Stmt → List StringType → Prop}

/-- Idle statements meet the condition and declare nothing. -/
theorem along_idle (idle : ∀ stmt declared, stmt.Idle → condition stmt declared) (stmts : List Stmt)
    (allIdle : ∀ stmt ∈ stmts, stmt.Idle) (declared : List StringType) :
    Along condition Stmt.enter stmts declared ∧ after Stmt.enter stmts declared = declared := by
  induction stmts with
  | nil => exact ⟨trivial, rfl⟩
  | cons head tail ih =>
      have same : head.enter declared = declared := by
        have isIdle := allIdle head (by simp)
        cases head <;> simp_all [Stmt.enter, Stmt.declares, Stmt.Idle]
      obtain ⟨met, left⟩ := ih fun stmt member => allIdle stmt (List.mem_cons_of_mem _ member)
      refine ⟨⟨idle head declared (allIdle head (by simp)), same.symm ▸ met⟩, ?_⟩
      simpa only [after, List.foldl_cons, same] using left

theorem annotationLines_idle (numbering : Numbering) :
    ∀ stmt ∈ annotationLines opts numbering, stmt.Idle := by
  rw [annotationLines]
  split <;> simp [Stmt.Idle]

theorem setupStmts_idle (source : ASTIdentifiable) (target : ASTDeductionTarget) :
    ∀ stmt ∈ setupStmts source target, stmt.Idle := by
  simp [setupStmts, Stmt.Idle]

theorem teardownStmts_idle (source : ASTIdentifiable) (target : ASTDeductionTarget) :
    ∀ stmt ∈ teardownStmts source target, stmt.Idle := by
  simp [teardownStmts, Stmt.Idle]

theorem after_plainPremiseStmts (source : ASTIdentifiable) (target : ASTDeductionTarget)
    (scope : Scope) : after Stmt.enter (plainPremiseStmts scope.nameId source target) scope.declared =
      (enter (.inferencePremise ⟨source, target, none⟩) scope).declared := by
  cases target <;> simp [after_enter, declaredNames, plainPremiseStmts, Stmt.declares, enter, premiseDeclares]

theorem after_equalityStmts (defn : ASTInferenceEqualityDefn) (declared : List StringType) :
    after Stmt.enter (equalityStmts defn) declared = declared := by
  rw [equalityStmts]
  cases defn.rangeClause <;> simp [after_enter, declaredNames, Stmt.declares]

mutual
/-- Following the scope along a premise's statements is following it along the
premise and what it nests, in document order. -/
theorem along_premiseStmts (idle : ∀ stmt declared, stmt.Idle → condition stmt declared)
    (premise : ASTPremiseDefn) (numbering : Numbering) (declared : List StringType) :
    (Along condition Stmt.enter (premiseStmts opts premise numbering) declared ↔
      Along (PremiseMeets condition) enter premise.documentOrder ⟨declared, numbering.nameId⟩) ∧
    after enter premise.documentOrder ⟨declared, numbering.nameId⟩ =
      ⟨after Stmt.enter (premiseStmts opts premise numbering) declared,
        (advance premise numbering).nameId⟩ := by
  have annotated := along_idle idle _ (annotationLines_idle opts numbering) declared
  match premise with
  | .inferencePremise ⟨source, target, none⟩ =>
      rw [premiseStmts, along_append, after_append, annotated.2, ASTPremiseDefn.documentOrder]
      have left := after_plainPremiseStmts source target ⟨declared, numbering.nameId⟩
      refine ⟨by simp [Along, PremiseMeets, annotated.1], ?_⟩
      rw [left]
      rfl
  | .inferencePremise ⟨source, target, some body⟩ =>
      have setup := along_idle idle _ (setupStmts_idle source target) declared
      have inside := along_premiseListStmts idle body numbering declared
      have teardown := along_idle idle _ (teardownStmts_idle source target)
        (after Stmt.enter (premiseListStmts opts body numbering) declared)
      simp only [premiseStmts, along_append, after_append, annotated, setup, teardown,
        ASTPremiseDefn.documentOrder, true_and, and_true]
      have same : enter (.inferencePremise ⟨source, target, some body⟩) ⟨declared, numbering.nameId⟩ =
          ⟨declared, numbering.nameId⟩ := by simp [enter, premiseDeclares, usesTemporaries]
      constructor
      · rw [inside.1, Along, same]
        exact (and_iff_right trivial).symm
      · rw [after, List.foldl_cons, same]
        exact inside.2
  | .inferenceEquality defn =>
      rw [premiseStmts, after_equalityStmts, ASTPremiseDefn.documentOrder]
      refine ⟨by simp [Along, PremiseMeets], ?_⟩
      simp [after, enter, premiseDeclares, usesTemporaries, advance]

theorem along_premiseListStmts (idle : ∀ stmt declared, stmt.Idle → condition stmt declared)
    (premises : List ASTPremiseDefn) (numbering : Numbering) (declared : List StringType) :
    (Along condition Stmt.enter (premiseListStmts opts premises numbering) declared ↔
      Along (PremiseMeets condition) enter (ASTPremiseDefn.documentOrderList premises)
        ⟨declared, numbering.nameId⟩) ∧
    after enter (ASTPremiseDefn.documentOrderList premises) ⟨declared, numbering.nameId⟩ =
      ⟨after Stmt.enter (premiseListStmts opts premises numbering) declared,
        (advanceList premises numbering).nameId⟩ := by
  match premises with
  | [] => exact ⟨Iff.rfl, rfl⟩
  | head :: tail =>
      have first := along_premiseStmts idle head numbering declared
      have rest := along_premiseListStmts idle tail (advance head numbering)
        (after Stmt.enter (premiseStmts opts head numbering) declared)
      rw [premiseListStmts, ASTPremiseDefn.documentOrderList, along_append, along_append, after_append,
        after_append, first.2]
      exact ⟨and_congr first.1 rest.1, rest.2⟩
end

end Transfer

/-! ## What a body declares -/

/-- The targets that premises without while clause declare, in order. -/
def plainTargets (premises : List ASTPremiseDefn) : List StringType :=
  premises.filterMap fun
    | .inferencePremise ⟨_, target, none⟩ => target.declaredName
    | _ => none

/-- The first `count` temporaries from a number on. -/
def temporaries (nameId : UInt32) (count : Nat) : List StringType :=
  (List.range count).map fun k => varName (nameId + UInt32.ofNat k)

/-- How many temporaries the premises use. -/
def temporaryCount (premises : List ASTPremiseDefn) : Nat := 2 * premises.countP usesTemporaries

theorem varName_ne_err (nameId : UInt32) : varName nameId ≠ defaultErrorOutputParameterName := by
  intro same
  have lists := congrArg String.toList same
  simp [varName, defaultErrorOutputParameterName] at lists

theorem err_notMem_temporaries (nameId : UInt32) (count : Nat) :
    defaultErrorOutputParameterName ∉ temporaries nameId count := by
  simp [temporaries, varName_ne_err]

theorem temporaries_append (nameId : UInt32) (first second : Nat) :
    temporaries nameId (first + second) =
      temporaries nameId first ++ temporaries (nameId + UInt32.ofNat first) second := by
  simp [temporaries, List.range_add, Function.comp_def, UInt32.ofNat_add, UInt32.add_assoc]

/-- Temporaries are distinct until their number wraps around. -/
theorem temporaries_nodup_iff (nameId : UInt32) (count : Nat) :
    (temporaries nameId count).Nodup ↔ count ≤ 2 ^ 32 := by
  rw [temporaries, List.nodup_map_iff_inj_on List.nodup_range]
  constructor
  · intro injective
    by_contra many
    have wrapped : varName (nameId + UInt32.ofNat (2 ^ 32)) = varName (nameId + UInt32.ofNat 0) := rfl
    have same := injective (2 ^ 32) (by simp; omega) 0 (by simp; omega) wrapped
    omega
  · intro few first memberFirst second memberSecond same
    rw [List.mem_range] at memberFirst memberSecond
    have numbers := congrArg UInt32.toNat (UInt32.add_right_inj nameId |>.mp (varName_injective same))
    have below : ∀ {k : Nat}, k < count → k < UInt32.size := fun less => Nat.lt_of_lt_of_le less few
    rwa [UInt32.toNat_ofNat_of_lt' (below memberFirst),
      UInt32.toNat_ofNat_of_lt' (below memberSecond)] at numbers

theorem plainTargets_cons (head : ASTPremiseDefn) (tail : List ASTPremiseDefn) :
    plainTargets (head :: tail) = plainTargets [head] ++ plainTargets tail :=
  List.filterMap_append (l := [head])

theorem temporaryCount_cons (head : ASTPremiseDefn) (tail : List ASTPremiseDefn) :
    temporaryCount (head :: tail) = temporaryCount [head] + temporaryCount tail := by
  simp only [temporaryCount, List.countP_cons, List.countP_nil]
  omega

theorem premiseDeclares_eq (nameId : UInt32) (premise : ASTPremiseDefn) :
    premiseDeclares nameId premise =
      plainTargets [premise] ++ temporaries nameId (temporaryCount [premise]) := by
  match premise with
  | .inferencePremise ⟨_, .singular _, none⟩ | .inferencePremise ⟨_, .array _ _, none⟩ => rfl
  | .inferencePremise ⟨_, .computed _ _, none⟩ =>
      simp [premiseDeclares, plainTargets, declaredName, temporaries, temporaryCount, usesTemporaries,
        isComputed, List.range_succ]
  | .inferencePremise ⟨_, target, some _⟩ => cases target <;> rfl
  | .inferenceEquality _ => rfl

theorem enter_nameId (premise : ASTPremiseDefn) (scope : Scope) :
    (enter premise scope).nameId = scope.nameId + UInt32.ofNat (temporaryCount [premise]) := by
  cases uses : usesTemporaries premise with
  | true =>
      simp only [enter, uses, if_true, temporaryCount, List.countP_cons, List.countP_nil]
      rw [UInt32.add_assoc]
      rfl
  | false => simp [enter, uses, temporaryCount]

/-- A scope holds the plain targets and the temporaries. -/
theorem declared_perm (premises : List ASTPremiseDefn) (scope : Scope) :
    (after enter premises scope).declared.Perm
      (scope.declared ++ (plainTargets premises ++ temporaries scope.nameId (temporaryCount premises))) := by
  induction premises generalizing scope with
  | nil => simp [after, plainTargets, temporaries, temporaryCount]
  | cons head tail ih =>
      have step := ih (enter head scope)
      rw [after, List.foldl_cons, ← after]
      refine step.trans ?_
      rw [enter_nameId, plainTargets_cons, temporaryCount_cons head tail, temporaries_append]
      simp only [enter, premiseDeclares_eq, List.append_assoc, List.perm_append_left_iff]
      exact List.perm_append_comm_assoc ..

/-! ## Redeclarations -/

variable (opts : Options)

/-- The parameters of a synthesized function. -/
def parameterNames (defn : ASTInferenceDefn) : List StringType :=
  defn.argumentNames ++ if opts.useException then [] else [defaultErrorOutputParameterName]

/-- No variable of a function is declared twice in one scope, and those of the
body differ from the parameters and from `err`. -/
structure NoRedeclaration (defn : ASTInferenceDefn) (body : List Stmt) : Prop where
  parameters : (parameterNames opts defn).Nodup
  declared : (declaredNames body).Nodup
  apart : ∀ name ∈ declaredNames body,
    name ∉ parameterNames opts defn ∧ name ≠ defaultErrorOutputParameterName
  nested : ∀ names ∈ Stmt.scopesList body, names.Nodup

/-- The plain targets, the arguments, `err` and the temporaries of a function,
the first of which has the number `nameId`, do not collide. -/
structure DistinctNames (nameId : UInt32) (defn : ASTInferenceDefn) : Prop where
  targets : (plainTargets defn.allPremises).Nodup
  targetNotArgument : ∀ name ∈ plainTargets defn.allPremises, name ∉ defn.argumentNames
  errNotTarget : defaultErrorOutputParameterName ∉ plainTargets defn.allPremises
  errNotArgument : opts.useException = false → defaultErrorOutputParameterName ∉ defn.argumentNames
  temporaryFresh : ∀ name ∈ temporaries nameId (temporaryCount defn.allPremises),
    name ∉ plainTargets defn.allPremises ∧ name ∉ defn.argumentNames
  noWrapAround : temporaryCount defn.allPremises ≤ 2 ^ 32

theorem declaredNames_bodyStmts_perm (defn : ASTInferenceDefn) (nameId : UInt32) :
    (declaredNames (bodyStmts opts defn nameId)).Perm
      (plainTargets defn.allPremises ++ temporaries nameId (temporaryCount defn.allPremises)) := by
  have last : declaredNames (bodyStmts opts defn nameId) =
      declaredNames (premiseListStmts opts defn.premiseDefns ⟨nameId, 0⟩) := by
    simp [bodyStmts, declaredNames, Stmt.declares]
  have left := (@along_premiseListStmts opts (fun _ _ => True) (fun _ _ _ => trivial)
    defn.premiseDefns ⟨nameId, 0⟩ []).2
  have perm := declared_perm defn.allPremises ⟨[], nameId⟩
  rw [ASTInferenceDefn.allPremises, left, after_enter] at perm
  simpa [last, ASTInferenceDefn.allPremises] using perm

mutual
theorem premiseStmts_nested (premise : ASTPremiseDefn) (numbering : Numbering) :
    ∀ names ∈ Stmt.scopesList (premiseStmts opts premise numbering), names.Nodup := by
  have annotated : Stmt.scopesList (annotationLines opts numbering) = [] := by
    rw [annotationLines]
    split <;> rfl
  match premise with
  | .inferencePremise ⟨source, target, none⟩ =>
      rw [premiseStmts, Stmt.scopesList_append, annotated, List.nil_append]
      cases target <;>
        simp [plainPremiseStmts, Stmt.scopesList, Stmt.scopes, errorHandling, declaredNames, Stmt.declares]
  | .inferencePremise ⟨source, target, some body⟩ =>
      simp only [premiseStmts, Stmt.scopesList_append, annotated, setupStmts, teardownStmts,
        Stmt.scopesList, Stmt.scopes, List.append_nil, List.nil_append]
      exact premiseListStmts_nested body numbering
  | .inferenceEquality defn =>
      rw [premiseStmts, equalityStmts]
      cases defn.rangeClause <;>
        simp [Stmt.scopesList, Stmt.scopes, errorHandling, declaredNames, Stmt.declares]

theorem premiseListStmts_nested (premises : List ASTPremiseDefn) (numbering : Numbering) :
    ∀ names ∈ Stmt.scopesList (premiseListStmts opts premises numbering), names.Nodup := by
  match premises with
  | [] => simp [premiseListStmts, Stmt.scopesList]
  | head :: tail =>
      rw [premiseListStmts, Stmt.scopesList_append, List.forall_mem_append]
      exact ⟨premiseStmts_nested head numbering, premiseListStmts_nested tail (advance head numbering)⟩
end

theorem bodyStmts_nested (defn : ASTInferenceDefn) (nameId : UInt32) :
    ∀ names ∈ Stmt.scopesList (bodyStmts opts defn nameId), names.Nodup := by
  rw [bodyStmts, Stmt.scopesList_append]
  simpa [Stmt.scopesList, Stmt.scopes] using premiseListStmts_nested opts defn.premiseDefns ⟨nameId, 0⟩

theorem parameterNames_nodup_iff {defn : ASTInferenceDefn} (arguments : defn.argumentNames.Nodup) :
    (parameterNames opts defn).Nodup ↔
      (opts.useException = false → defaultErrorOutputParameterName ∉ defn.argumentNames) := by
  cases useException : opts.useException with
  | true => simp [parameterNames, useException, arguments]
  | false => simp [parameterNames, useException, List.nodup_append, arguments, List.forall_mem_ne']

/-- `BinaryExpressionInference` of `tests/fixtures/full_feature.sl`. -/
def binaryExpressionInference : ASTInferenceDefn where
  name := "BinaryExpressionInference"
  globalDecls := []
  arguments := [⟨"expr", "Expr"⟩]
  premiseDefns := [.inferencePremise ⟨⟨["expr", "lhs"]⟩, .singular "Expr", none⟩,
    .inferencePremise ⟨⟨["expr", "rhs"]⟩, .singular "Expr", none⟩]
  propositionDefn := ⟨.singular "Expr"⟩

/-- A function of an accepted module declares nothing twice exactly if its
names do not collide. -/
theorem noRedeclaration_iff (semaOpts : SemanticAnalyzer.Options) (module : ASTModule)
    (accepted : (SemanticAnalyzer.run semaOpts module).value = true) (group : ASTInferenceGroup)
    (memberGroup : group ∈ module.inferenceGroups) (defn : ASTInferenceDefn)
    (member : defn ∈ group.inferenceDefns) (nameId : UInt32) :
    NoRedeclaration opts defn (bodyStmts opts defn nameId) ↔ DistinctNames opts nameId defn := by
  have wellFormed := (SemanticAnalyzer.visitModule_iff semaOpts.policy module).mp accepted
  have arguments := ((wellFormed.groups group memberGroup).inferences defn member).arguments
  have perm := declaredNames_bodyStmts_perm opts defn nameId
  have declaredIff : (declaredNames (bodyStmts opts defn nameId)).Nodup ↔ _ :=
    perm.nodup_iff.trans List.nodup_append
  have memberIff : ∀ name, name ∈ declaredNames (bodyStmts opts defn nameId) ↔ _ := fun name =>
    perm.mem_iff.trans List.mem_append
  constructor
  · intro noRedeclaration
    obtain ⟨targets, distinct, disjoint⟩ := declaredIff.mp noRedeclaration.declared
    have apart := noRedeclaration.apart
    simp only [memberIff, parameterNames, List.mem_append, not_or] at apart
    exact {
      targets := targets
      targetNotArgument := fun name inTargets => (apart name (.inl inTargets)).1.1
      errNotTarget := fun inTargets => (apart _ (.inl inTargets)).2 rfl
      errNotArgument := (parameterNames_nodup_iff opts arguments).mp noRedeclaration.parameters
      temporaryFresh := fun name temporary =>
        ⟨fun inTargets => disjoint name inTargets name temporary rfl,
          (apart name (.inr temporary)).1.1⟩
      noWrapAround := (temporaries_nodup_iff _ _).mp distinct }
  · intro distinct
    exact {
      parameters := (parameterNames_nodup_iff opts arguments).mpr distinct.errNotArgument
      declared := declaredIff.mpr ⟨distinct.targets, (temporaries_nodup_iff _ _).mpr distinct.noWrapAround,
        fun name inTargets other temporary same =>
          (distinct.temporaryFresh other temporary).1 (same ▸ inTargets)⟩
      apart := by
        intro name declared
        have notErr : name ≠ defaultErrorOutputParameterName := by
          rintro rfl
          rcases (memberIff _).mp declared with inTargets | temporary
          · exact distinct.errNotTarget inTargets
          · exact err_notMem_temporaries _ _ temporary
        have notArgument : name ∉ defn.argumentNames := by
          rcases (memberIff _).mp declared with inTargets | temporary
          · exact distinct.targetNotArgument name inTargets
          · exact (distinct.temporaryFresh name temporary).2
        refine ⟨?_, notErr⟩
        rw [parameterNames, List.mem_append, not_or]
        refine ⟨notArgument, ?_⟩
        split <;> simp [notErr]
      nested := bodyStmts_nested opts defn nameId }

/-- Its function declares `Expr` twice. -/
theorem redeclares_target :
    (SemanticAnalyzer.run ⟨true, true, false⟩ (.ofInference binaryExpressionInference)).value = true ∧
      ¬ NoRedeclaration ⟨false, true, "", ""⟩ binaryExpressionInference
        (bodyStmts ⟨false, true, "", ""⟩ binaryExpressionInference 0) :=
  ⟨by decide, fun noRedeclaration => absurd noRedeclaration.declared (by decide)⟩

/-- The function of the tutorial's inference declares nothing twice. -/
theorem staticMethodStaticDispatch_noRedeclaration :
    NoRedeclaration ⟨false, true, "", ""⟩ staticMethodStaticDispatch
      (bodyStmts ⟨false, true, "", ""⟩ staticMethodStaticDispatch 0) :=
  (noRedeclaration_iff _ ⟨true, true, false⟩ (.ofInference staticMethodStaticDispatch) (by decide) _
    (.head _) _ (.head _) 0).mpr
    ⟨by decide, by decide, by decide, by decide, by decide, by decide⟩

end Synthesizer

end Snowlake
