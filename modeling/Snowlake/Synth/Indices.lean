import Snowlake.Synth.Translation

/-! # Index literals

`T[3]` in an operand is an element of `T`.  The synthesizer writes operands, and
arguments at any depth, in a mode that drops the literal, so what it compares is
`T` itself; only a proposition keeps its literal.  No check relates the index of
a use to the size of the declaration.
-/

namespace Snowlake

open Emitted Checking Checking.Check ASTDeductionTarget

/-! ## Definitions that differ in one index -/

namespace ASTDeductionTarget

/-- The targets are the same but for the literal of one array. -/
inductive DiffersInIndex : ASTDeductionTarget → ASTDeductionTarget → Prop
  | literal (name : StringType) {index index' : IntegerType} (distinct : index ≠ index') :
      DiffersInIndex (.array name (some index)) (.array name (some index'))
  | argument (name : StringType) (before after : List ASTDeductionTarget)
      {target target' : ASTDeductionTarget} (differs : DiffersInIndex target target') :
      DiffersInIndex (.computed name (before ++ target :: after))
        (.computed name (before ++ target' :: after))

theorem hasLiteralList_append (first second : List ASTDeductionTarget) :
    hasLiteralList (first ++ second) = (hasLiteralList first || hasLiteralList second) := by
  induction first with
  | nil => rfl
  | cons head tail ih => simp only [List.cons_append, hasLiteralList, ih, Bool.or_assoc]

theorem DiffersInIndex.hasLiteral {target target' : ASTDeductionTarget}
    (differs : target.DiffersInIndex target') : target.hasLiteral = true := by
  induction differs with
  | literal => rfl
  | argument name before after _ ih =>
      simp [ASTDeductionTarget.hasLiteral, hasLiteralList_append, hasLiteralList, ih]

end ASTDeductionTarget

namespace ASTPremiseDefn

/-- The premises are the same but for one literal in an operand of an equality
premise without range clause. -/
inductive DiffersInIndex : ASTPremiseDefn → ASTPremiseDefn → Prop
  | lhs {lhs lhs' : ASTDeductionTarget} (rhs : ASTDeductionTarget) (oprt : EqualityOperator)
      (differs : lhs.DiffersInIndex lhs') :
      DiffersInIndex (.inferenceEquality ⟨lhs, rhs, oprt, none⟩) (.inferenceEquality ⟨lhs', rhs, oprt, none⟩)
  | rhs (lhs : ASTDeductionTarget) {rhs rhs' : ASTDeductionTarget} (oprt : EqualityOperator)
      (differs : rhs.DiffersInIndex rhs') :
      DiffersInIndex (.inferenceEquality ⟨lhs, rhs, oprt, none⟩) (.inferenceEquality ⟨lhs, rhs', oprt, none⟩)
  | nested (source : ASTIdentifiable) (target : ASTDeductionTarget) (before after : List ASTPremiseDefn)
      {premise premise' : ASTPremiseDefn} (differs : DiffersInIndex premise premise') :
      DiffersInIndex (.inferencePremise ⟨source, target, some (before ++ premise :: after)⟩)
        (.inferencePremise ⟨source, target, some (before ++ premise' :: after)⟩)

end ASTPremiseDefn

/-- The definitions are the same but for one such literal. -/
def ASTInferenceDefn.DiffersInIndex (defn other : ASTInferenceDefn) : Prop :=
  ∃ before premise premise' after, defn.premiseDefns = before ++ premise :: after ∧
    premise.DiffersInIndex premise' ∧
    other = { defn with premiseDefns := before ++ premise' :: after }

namespace Synthesizer

/-! ## What is written for them -/

theorem targetExprs_append (first second : List ASTDeductionTarget) :
    targetExprs (first ++ second) = targetExprs first ++ targetExprs second := by
  induction first with
  | nil => rfl
  | cons head tail ih => simp only [List.cons_append, targetExprs, ih]

/-- An operand is written without its literals. -/
theorem targetExpr_eq_of_differsInIndex {target target' : ASTDeductionTarget}
    (differs : target.DiffersInIndex target') : targetExpr target = targetExpr target' := by
  induction differs with
  | literal => rfl
  | argument name before after _ ih =>
      simp only [targetExpr, targetExprs_append, targetExprs, ih]

theorem premiseListStmts_congr (opts : Options) {premise premise' : ASTPremiseDefn}
    (stmts : ∀ numbering, premiseStmts opts premise numbering = premiseStmts opts premise' numbering)
    (counters : ∀ numbering, advance premise numbering = advance premise' numbering)
    (before after : List ASTPremiseDefn) (numbering : Numbering) :
    premiseListStmts opts (before ++ premise :: after) numbering =
        premiseListStmts opts (before ++ premise' :: after) numbering ∧
      advanceList (before ++ premise :: after) numbering =
        advanceList (before ++ premise' :: after) numbering := by
  induction before generalizing numbering with
  | nil => simp only [List.nil_append, premiseListStmts, advanceList, stmts, counters, and_self]
  | cons head tail ih =>
      simp only [List.cons_append, premiseListStmts, advanceList]
      exact ⟨congrArg _ (ih (advance head numbering)).1, (ih (advance head numbering)).2⟩

theorem premiseStmts_eq_of_differsInIndex (opts : Options) {premise premise' : ASTPremiseDefn}
    (differs : premise.DiffersInIndex premise') :
    (∀ numbering, premiseStmts opts premise numbering = premiseStmts opts premise' numbering) ∧
      ∀ numbering, advance premise numbering = advance premise' numbering := by
  induction differs with
  | lhs rhs oprt differs | rhs lhs oprt differs =>
      have same := targetExpr_eq_of_differsInIndex differs
      exact ⟨fun _ => by simp only [premiseStmts, equalityStmts, same], fun _ => rfl⟩
  | nested source target before after _ ih =>
      have inside := premiseListStmts_congr opts ih.1 ih.2 before after
      exact ⟨fun numbering => by simp only [premiseStmts, (inside numbering).1],
        fun numbering => by simp only [advance, (inside numbering).2]⟩

/-- Definitions that differ in an index have the same function body. -/
theorem bodyStmts_eq_of_differsInIndex (opts : Options) {defn other : ASTInferenceDefn}
    (differs : defn.DiffersInIndex other) (nameId : UInt32) :
    bodyStmts opts defn nameId = bodyStmts opts other nameId := by
  obtain ⟨before, premise, premise', after, split, differs, rfl⟩ := differs
  obtain ⟨stmts, counters⟩ := premiseStmts_eq_of_differsInIndex opts differs
  simp only [bodyStmts, split, (premiseListStmts_congr opts stmts counters before after _).1]

/-! ## What operands denote -/

/-- The comparison compares what the operands denote, where an array with a
literal is one of its elements. -/
def ComparesOperands (defn : ASTInferenceEqualityDefn) (comparison : Comparison) : Prop :=
  ∀ (σ V : Type) (hooks : Hooks σ V) (frame : Frame V), hooks.evalComparison frame comparison = do
    let lhs ← hooks.evalTarget frame.read defn.lhs
    let rhs ← hooks.evalTarget frame.read defn.rhs
    hooks.compare lhs rhs (some defn.oprt)

/-- Every equality premise without range clause is written as the comparison of
its operands, and no other index would have been written alike. -/
structure IndicesSignificant (opts : Options) (names : Names) (defn : ASTInferenceDefn) : Prop where
  denotes : ∀ equality, .inferenceEquality equality ∈ defn.allPremises → equality.rangeClause = none →
    ∃ comparison body, equalityStmts equality = [.ifNot comparison body] ∧
      ComparesOperands equality comparison
  distinguishes : ∀ other, defn.DiffersInIndex other → ∀ nameId,
    Stmt.renderList names 1 (bodyStmts opts defn nameId) ≠
      Stmt.renderList names 1 (bodyStmts opts other nameId)

/-- No operand of an equality premise without range clause has a literal in it. -/
def OperandsWithoutLiterals (defn : ASTInferenceDefn) : Prop :=
  ∀ equality, .inferenceEquality equality ∈ defn.allPremises → equality.rangeClause = none →
    equality.lhs.hasLiteral = false ∧ equality.rhs.hasLiteral = false

section Probe

/-- Hooks over arrays without elements. -/
def emptyHooks : Hooks Unit Unit := { unitHooks true with subscript := fun _ _ => none }

/-- A frame in which every name is a variable. -/
def openFrame : Frame Unit := ⟨fun _ => some (.value ()), []⟩

theorem isSome_bind {σ V α β : Type} {first : Run σ V α} {next : α → Run σ V β} {passes passes' : Bool}
    (world : World σ V) (ran : (first.run world).isSome = passes)
    (rest : ∀ value world, ((next value).run world).isSome = passes') :
    ((first >>= next).run world).isSome = (passes && passes') := by
  rw [StateT.run_bind]
  cases result : first.run world with
  | none =>
      rw [result] at ran
      rw [← ran]
      rfl
  | some answer =>
      rw [result] at ran
      rw [← ran]
      exact (rest answer.1 answer.2).trans (Bool.true_and _).symm

mutual
/-- Evaluation of a target gets stuck exactly at its literals. -/
theorem evalTarget_emptyHooks (target : ASTDeductionTarget) (world : World Unit Unit) :
    ((emptyHooks.evalTarget openFrame.read target).run world).isSome = !target.hasLiteral := by
  match target with
  | .singular _ | .array _ none | .array _ (some _) => rfl
  | .computed name arguments =>
      rw [Hooks.evalTarget]
      have inside := evalTargets_emptyHooks arguments world
      exact (isSome_bind world inside fun _ _ => rfl).trans (Bool.and_true _)

theorem evalTargets_emptyHooks (targets : List ASTDeductionTarget) (world : World Unit Unit) :
    ((emptyHooks.evalTargets openFrame.read targets).run world).isSome = !hasLiteralList targets := by
  match targets with
  | [] => rfl
  | head :: tail =>
      rw [Hooks.evalTargets, hasLiteralList, Bool.not_or]
      refine isSome_bind world (evalTarget_emptyHooks head world) fun value world => ?_
      have rest := evalTargets_emptyHooks tail world
      exact (isSome_bind world rest fun _ _ => rfl).trans (Bool.and_true _)
end

mutual
/-- Evaluation of what is written for a target does not get stuck. -/
theorem evalExpr_emptyHooks (target : ASTDeductionTarget) (world : World Unit Unit) :
    ((emptyHooks.evalExpr openFrame.read (targetExpr target)).run world).isSome = true := by
  match target with
  | .singular _ | .array _ _ => rfl
  | .computed name arguments =>
      rw [targetExpr, Hooks.evalExpr]
      exact isSome_bind world (evalExprs_emptyHooks arguments world) fun _ _ => rfl

theorem evalExprs_emptyHooks (targets : List ASTDeductionTarget) (world : World Unit Unit) :
    ((emptyHooks.evalExprs openFrame.read (targetExprs targets)).run world).isSome = true := by
  match targets with
  | [] => rfl
  | head :: tail =>
      rw [targetExprs, Hooks.evalExprs]
      refine isSome_bind world (evalExpr_emptyHooks head world) fun value world => ?_
      exact isSome_bind world (evalExprs_emptyHooks tail world) fun _ _ => rfl
end

end Probe

/-- The emitted comparison of two operands. -/
def operandComparison (defn : ASTInferenceEqualityDefn) : Comparison :=
  ⟨⟨targetExpr defn.lhs, none⟩, ⟨targetExpr defn.rhs, none⟩, some defn.oprt⟩

theorem evalComparison_operandComparison {σ V : Type} (hooks : Hooks σ V) (frame : Frame V)
    (defn : ASTInferenceEqualityDefn) :
    hooks.evalComparison frame (operandComparison defn) = (do
      let lhs ← hooks.evalExpr frame.read (targetExpr defn.lhs)
      let rhs ← hooks.evalExpr frame.read (targetExpr defn.rhs)
      hooks.compare lhs rhs (some defn.oprt)) := by
  simp only [Hooks.evalComparison, Hooks.evalOperand, operandComparison, bind_pure]

theorem comparesOperands_iff (defn : ASTInferenceEqualityDefn) :
    ComparesOperands defn (operandComparison defn) ↔
      defn.lhs.hasLiteral = false ∧ defn.rhs.hasLiteral = false := by
  constructor
  · intro compares
    have world : World Unit Unit := ⟨(), [], none⟩
    have same := compares Unit Unit emptyHooks openFrame
    rw [evalComparison_operandComparison] at same
    have written := isSome_bind world (evalExpr_emptyHooks defn.lhs world) fun lhs world =>
      isSome_bind world (evalExpr_emptyHooks defn.rhs world) fun rhs world =>
        (rfl : ((emptyHooks.compare lhs rhs (some defn.oprt)).run world).isSome = true)
    have denoted := isSome_bind world (evalTarget_emptyHooks defn.lhs world) fun lhs world =>
      isSome_bind world (evalTarget_emptyHooks defn.rhs world) fun rhs world =>
        (rfl : ((emptyHooks.compare lhs rhs (some defn.oprt)).run world).isSome = true)
    rw [same, denoted] at written
    simpa using written
  · rintro ⟨lhs, rhs⟩ σ V hooks frame
    rw [evalComparison_operandComparison,
      evalExpr_targetExpr hooks defn.lhs (fun _ _ => rfl) lhs,
      evalExpr_targetExpr hooks defn.rhs (fun _ _ => rfl) rhs]

theorem equalityStmts_of_none {defn : ASTInferenceEqualityDefn} (noRange : defn.rangeClause = none) :
    equalityStmts defn = [.ifNot (operandComparison defn) errorHandling] := by
  rw [equalityStmts, noRange]
  rfl

/-- A premise that may differ in an index has an operand with a literal. -/
theorem exists_hasLiteral_of_differsInIndex {premise premise' : ASTPremiseDefn}
    (differs : premise.DiffersInIndex premise') :
    ∃ equality, .inferenceEquality equality ∈ premise.documentOrder ∧ equality.rangeClause = none ∧
      (equality.lhs.hasLiteral = true ∨ equality.rhs.hasLiteral = true) := by
  induction differs with
  | lhs rhs oprt differs => exact ⟨_, List.mem_singleton.mpr rfl, rfl, .inl differs.hasLiteral⟩
  | rhs lhs oprt differs => exact ⟨_, List.mem_singleton.mpr rfl, rfl, .inr differs.hasLiteral⟩
  | nested source target before after _ ih =>
      obtain ⟨equality, member, noRange, literal⟩ := ih
      refine ⟨equality, ?_, noRange, literal⟩
      rw [ASTPremiseDefn.documentOrder]
      exact List.mem_cons_of_mem _ (ASTPremiseDefn.mem_documentOrderList.mpr ⟨_, by simp, member⟩)

/-- Indices matter in what is written exactly if there are none in the operands
of equality premises without range clause. -/
theorem indicesSignificant_iff (opts : Options) (names : Names) (defn : ASTInferenceDefn) :
    IndicesSignificant opts names defn ↔ OperandsWithoutLiterals defn := by
  constructor
  · intro significant equality member noRange
    obtain ⟨comparison, body, written, compares⟩ := significant.denotes equality member noRange
    rw [equalityStmts_of_none noRange] at written
    cases written
    exact (comparesOperands_iff equality).mp compares
  · intro without
    refine ⟨fun equality member noRange => ?_, ?_⟩
    · exact ⟨_, _, equalityStmts_of_none noRange,
        (comparesOperands_iff equality).mpr (without equality member noRange)⟩
    · rintro other ⟨before, premise, premise', after, split, differs, -⟩
      obtain ⟨equality, member, noRange, literal⟩ := exists_hasLiteral_of_differsInIndex differs
      have inDefn : .inferenceEquality equality ∈ defn.allPremises := by
        rw [ASTInferenceDefn.allPremises, split]
        exact ASTPremiseDefn.mem_documentOrderList.mpr ⟨_, by simp, member⟩
      have none := without equality inDefn noRange
      rw [none.1, none.2] at literal
      rcases literal with absurd' | absurd' <;> cases absurd'

/-- `ArgumentsTypes[0] != SELF_TYPE` in the tutorial's inference might as well
name the element 1. -/
theorem staticMethodStaticDispatch_forgets_index :
    (SemanticAnalyzer.run ⟨true, true, false⟩ (.ofInference staticMethodStaticDispatch)).value = true ∧
      ¬ IndicesSignificant ⟨false, true, "", ""⟩ ⟨"TypeCls", "proveType", "cmpType", "setup", "teardown"⟩
        staticMethodStaticDispatch := by
  refine ⟨by decide, fun significant => ?_⟩
  have distinct : (0 : IntegerType) ≠ 1 := by decide
  have differs : staticMethodStaticDispatch.DiffersInIndex _ :=
    ⟨staticMethodStaticDispatch.premiseDefns.take 3, _, _, staticMethodStaticDispatch.premiseDefns.drop 4,
      rfl, .lhs (.singular "SELF_TYPE") .operatorNeq (.literal "ArgumentsTypes" distinct), rfl⟩
  exact significant.distinguishes _ differs 0
    (congrArg (Stmt.renderList _ 1) (bodyStmts_eq_of_differsInIndex _ differs 0))

end Synthesizer

/-! ## Elements and sizes -/

namespace ASTDeductionTarget

mutual
/-- The arrays with a literal in a target, at any depth. -/
def elements : ASTDeductionTarget → List (StringType × IntegerType)
  | .singular _ => []
  | .array name index => (index.map (name, ·)).toList
  | .computed _ arguments => elementsList arguments

def elementsList : List ASTDeductionTarget → List (StringType × IntegerType)
  | [] => []
  | head :: tail => elements head ++ elementsList tail
end

end ASTDeductionTarget

namespace Emitted

mutual
/-- The elements an expression names by a literal. -/
def Expr.elements : Expr → List (StringType × IntegerType)
  | .ident _ | .deref _ => []
  | .element name index => [(name, index)]
  | .call _ arguments => Expr.elementsList arguments

def Expr.elementsList : List Expr → List (StringType × IntegerType)
  | [] => []
  | head :: tail => head.elements ++ Expr.elementsList tail
end

end Emitted

namespace Synthesizer

mutual
theorem elements_targetExpr (target : ASTDeductionTarget) : (targetExpr target).elements = [] := by
  cases target with
  | singular | array => rfl
  | computed name arguments => rw [targetExpr, Expr.elements, elements_targetExprs arguments]

theorem elements_targetExprs (targets : List ASTDeductionTarget) :
    Expr.elementsList (targetExprs targets) = [] := by
  cases targets with
  | nil => rfl
  | cons head tail =>
      rw [targetExprs, Expr.elementsList, elements_targetExpr head, elements_targetExprs tail]
      rfl
end

/-- The operands of the equality premises without range clause. -/
def PlainOperand (defn : ASTInferenceDefn) (operand : ASTDeductionTarget) : Prop :=
  ∃ equality, .inferenceEquality equality ∈ defn.allPremises ∧ equality.rangeClause = none ∧
    (operand = equality.lhs ∨ operand = equality.rhs)

/-- The elements of an array that a premise declares with a size, in operands and
in the text of the returned proposition, lie below that size. -/
structure ElementsInBounds (defn : ASTInferenceDefn) : Prop where
  operands : ∀ name size, .array name (some size) ∈ ASTPremiseDefn.targets defn.allPremises →
    ∀ operand, PlainOperand defn operand →
    ∀ index, (name, index) ∈ operand.elements → index < size
  returned : ∀ name size, .array name (some size) ∈ ASTPremiseDefn.targets defn.allPremises →
    ∀ index, (name, index) ∈ (propositionExpr defn.propositionDefn.target).elements → index < size

mutual
/-- The lookup the analyser leaves out: no literal of the target reaches the size
that the target table has under its name. -/
def fitsTable (tbl : TargetTable) : ASTDeductionTarget → Bool
  | .singular _ | .array _ none => true
  | .array name (some index) =>
      match tbl name with
      | some (.array _ (some size)) => index < size
      | _ => true
  | .computed _ arguments => fitsTableList tbl arguments

def fitsTableList (tbl : TargetTable) : List ASTDeductionTarget → Bool
  | [] => true
  | head :: tail => fitsTable tbl head && fitsTableList tbl tail
end

mutual
theorem fitsTable_iff (tbl : TargetTable) (target : ASTDeductionTarget) :
    fitsTable tbl target = true ↔ ∀ name index, (name, index) ∈ target.elements →
      ∀ other size, tbl name = some (.array other (some size)) → index < size := by
  match target with
  | .singular _ | .array _ none => simp [fitsTable, elements]
  | .array name (some index) =>
      simp only [fitsTable, elements, Option.map_some, Option.toList_some, List.mem_singleton,
        Prod.mk.injEq]
      constructor
      · rintro fits _ _ ⟨rfl, rfl⟩ other size found
        simpa [found] using fits
      · intro fits
        cases found : tbl name with
        | none => rfl
        | some existing =>
            cases existing with
            | singular | computed => rfl
            | array other size =>
                cases size with
                | none => rfl
                | some size => exact decide_eq_true (fits name index ⟨rfl, rfl⟩ other size found)
  | .computed _ arguments =>
      rw [fitsTable, elements]
      exact fitsTableList_iff tbl arguments

theorem fitsTableList_iff (tbl : TargetTable) (targets : List ASTDeductionTarget) :
    fitsTableList tbl targets = true ↔ ∀ name index, (name, index) ∈ elementsList targets →
      ∀ other size, tbl name = some (.array other (some size)) → index < size := by
  match targets with
  | [] => simp [fitsTableList, elementsList]
  | head :: tail =>
      rw [fitsTableList, Bool.and_eq_true, fitsTable_iff tbl head, fitsTableList_iff tbl tail, elementsList]
      simp only [List.mem_append, or_imp, forall_and]
end

/-- Operands pass the lookup in the final table, and no element is returned. -/
structure ElementsChecked (defn : ASTInferenceDefn) : Prop where
  operands : ∀ operand, PlainOperand defn operand →
    fitsTable (SemanticAnalyzer.tableAfter defn.allPremises) operand = true
  proposition : ∀ name index, defn.propositionDefn.target ≠ .array name (some index)

theorem tableAfter_array_iff {premises : List ASTPremiseDefn}
    (consistent : ConsistentTargets (ASTPremiseDefn.targets premises)) (name : StringType)
    (size : IntegerType) :
    (∃ other, SemanticAnalyzer.tableAfter premises name = some (.array other (some size))) ↔
      .array name (some size) ∈ ASTPremiseDefn.targets premises := by
  constructor
  · rintro ⟨other, found⟩
    obtain ⟨member, named⟩ := SemanticAnalyzer.tableAfter_some found
    obtain rfl : other = name := Option.some.inj named
    exact member
  · intro member
    obtain ⟨found, entry, same⟩ := SemanticAnalyzer.tableAfter_represents consistent member rfl
    cases found with
    | singular | computed => cases same
    | array other size' =>
        obtain rfl : size' = some size := same
        exact ⟨other, entry⟩

theorem elements_propositionExpr (target : ASTDeductionTarget) (name : StringType) (index : IntegerType) :
    (name, index) ∈ (propositionExpr target).elements ↔ target = .array name (some index) := by
  cases target with
  | singular => simp [propositionExpr, Expr.elements]
  | array other size =>
      cases size with
      | none => simp [propositionExpr, Expr.elements]
      | some size => simp [propositionExpr, Expr.elements, eq_comm]
  | computed other arguments => simp [propositionExpr, Expr.elements, elements_targetExprs]

/-- The elements an accepted definition names are there exactly if its operands
would have passed the lookup and it does not return an element. -/
theorem elementsInBounds_iff (semaOpts : SemanticAnalyzer.Options) (module : ASTModule)
    (accepted : (SemanticAnalyzer.run semaOpts module).value = true) (group : ASTInferenceGroup)
    (memberGroup : group ∈ module.inferenceGroups) (defn : ASTInferenceDefn)
    (member : defn ∈ group.inferenceDefns) : ElementsInBounds defn ↔ ElementsChecked defn := by
  have wellFormed := (((SemanticAnalyzer.visitModule_iff semaOpts.policy module).mp accepted).groups
    group memberGroup).inferences defn member
  have entry := tableAfter_array_iff wellFormed.targets
  constructor
  · intro inBounds
    constructor
    · intro operand isOperand
      rw [fitsTable_iff]
      intro name index element other size found
      exact inBounds.operands name size ((entry name size).mp ⟨other, found⟩) operand isOperand index element
    · -- What is returned was declared in the same form, so its literal is the size.
      intro name index returned
      obtain ⟨declared, isTarget, named, same⟩ := wellFormed.proposition name (by rw [returned]; rfl)
      rw [returned] at same
      cases declared with
      | singular | computed => cases same
      | array other size =>
          obtain rfl : some index = size := same
          obtain rfl : other = name := Option.some.inj named
          have below := inBounds.returned other index isTarget index
            ((elements_propositionExpr _ _ _).mpr returned)
          exact absurd below (UInt64.lt_irrefl index)
  · intro checked
    constructor
    · intro name size isTarget operand isOperand index element
      obtain ⟨other, found⟩ := (entry name size).mpr isTarget
      exact (fitsTable_iff _ operand).mp (checked.operands operand isOperand) name index element other size
        found
    · intro name size isTarget index returned
      exact absurd ((elements_propositionExpr _ _ _).mp returned) (checked.proposition name index)

/-- The last of two operands, counted from one. -/
def lastOperand : ASTInferenceDefn where
  name := "LastOperand"
  globalDecls := [⟨"SELF_TYPE"⟩]
  arguments := [⟨"expr", "ASTExpr"⟩]
  premiseDefns := [
    .inferencePremise ⟨⟨["expr", "operands"]⟩, .array "OperandTypes" (some 2), none⟩,
    .inferenceEquality ⟨.array "OperandTypes" (some 2), .singular "SELF_TYPE", .operatorLte, none⟩]
  propositionDefn := ⟨.array "OperandTypes" (some 2)⟩

/-- It is accepted. -/
theorem lastOperand_out_of_bounds :
    (SemanticAnalyzer.run ⟨true, true, false⟩ (.ofInference lastOperand)).value = true ∧
      ¬ ElementsInBounds lastOperand := by
  refine ⟨by decide, fun inBounds => ?_⟩
  have below := inBounds.returned "OperandTypes" 2 (.head _) 2 (.head _)
  exact absurd below (by decide)

/-- The first of two operands. -/
def firstOperand : ASTInferenceDefn := { lastOperand with
  name := "FirstOperand"
  premiseDefns := [
    .inferencePremise ⟨⟨["expr", "operands"]⟩, .array "OperandTypes" (some 2), none⟩,
    .inferenceEquality ⟨.array "OperandTypes" (some 0), .singular "SELF_TYPE", .operatorLte, none⟩]
  propositionDefn := ⟨.computed "first" [.array "OperandTypes" (some 2)]⟩ }

theorem firstOperand_in_bounds : ElementsInBounds firstOperand := by
  refine (elementsInBounds_iff ⟨true, true, false⟩ (.ofInference firstOperand) (by decide) _ (.head _) _
    (.head _)).mpr ⟨?_, nofun⟩
  rintro operand ⟨equality, member, -, which⟩
  obtain rfl : equality = ⟨.array "OperandTypes" (some 0), .singular "SELF_TYPE", .operatorLte, none⟩ := by
    simpa [firstOperand, ASTInferenceDefn.allPremises, ASTPremiseDefn.documentOrderList,
      ASTPremiseDefn.documentOrder] using member
  rcases which with rfl | rfl
  · decide
  · rfl

end Synthesizer

end Snowlake
