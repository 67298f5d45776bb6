import Snowlake.Sema.WellFormed
import Snowlake.Lib.Marks

/-! # Which premises get a report

Without `bailOnFirstError` the analyser goes on after an error, but only inside
the function that found it: its caller takes the negative verdict for an end.
The marked analyser is the analyser with the place of a premise on each report
that the premise's own checks make.
-/

namespace Snowlake

open Checking Checking.Check

/-- A premise of a module: its group, its inference there, and its index in the
inference's premises in document order. -/
structure Place where
  group : Nat
  inference : Nat
  premise : Nat
  deriving Repr, DecidableEq

namespace SemanticAnalyzer

/-! ## The marked analyser -/

section Marked

variable (policy : Policy)

mutual
/-- `recursivePremiseDefnCheck`, of the premise at index `place`. -/
def markedPremiseDefnCheck (context : InferenceDefnContext) :
    ASTPremiseDefn → Nat → TargetTable → Reported (Marked Diagnostic Nat) (Bool × TargetTable)
  | .inferencePremise ⟨source, target, none⟩, place =>
      call <| returnOnFailure <| call do
        marked (some place) (sourceCheck policy context source)
        marked (some place) (targetCheck policy context target)
  | .inferencePremise ⟨source, target, some body⟩, place =>
      call <| returnOnFailure <| call do
        marked (some place) (sourceCheck policy context source)
        marked (some place) (targetCheck policy context target)
        markedPremiseDefnsCheck context body (place + 1)
  | .inferenceEquality defn, place =>
      call <| returnOnFailure fun targetTbl =>
        (equalityDefnCheck policy context defn targetTbl).mapBody fun said => ⟨said, some place⟩

/-- `premiseDefnsCheck`, of premises that begin at index `place`. -/
def markedPremiseDefnsCheck (context : InferenceDefnContext) :
    List ASTPremiseDefn → Nat → Check (Marked Diagnostic Nat) TargetTable Unit
  | [], _ => pure ()
  | head :: tail, place => do
      returnOnFailure (markedPremiseDefnCheck context head place)
      markedPremiseDefnsCheck context tail (place + head.documentOrder.length)
end

/-- `previsitInferenceDefn`. -/
def markedInferenceDefn (inferenceDefn : ASTInferenceDefn) : Reported (Marked Diagnostic Nat) Bool :=
  callLocal (do
    let globals ← marked none <| insertDistinct (fun name =>
      onWarning policy (diagnostic .duplicateGlobalDefinition
        ("Found duplicate symbol (global declaration) with name \"" ++ name ++ "\".")))
      (inferenceDefn.globalDecls.map (·.name)) ∅
    let symbolSet ← marked none <| insertDistinct (fun name =>
      onError policy (diagnostic .duplicateArgumentIdentifier
        ("Found duplicate symbol (argument) with name \"" ++ name ++ "\".")))
      (inferenceDefn.arguments.map (·.name)) globals
    markedPremiseDefnsCheck policy ⟨inferenceDefn.name, symbolSet⟩ inferenceDefn.premiseDefns 0
    let targetTbl ← get
    marked none <| when
      (!ASTUtils.hasCompatibleTargetInTable inferenceDefn.propositionDefn.target targetTbl) <|
      onError policy (diagnostic .invalidTargetType
        ("Invalid proposition target type in inference \"" ++ inferenceDefn.name ++ "\".")))
    (fun _ => none)

/-- A visit of the group at index `g`. -/
def markedInferenceGroup (inferenceGroup : ASTInferenceGroup) (g : Nat) :
    Reported (Marked Diagnostic Place) Bool :=
  ASTVisitor.verify ((previsitInferenceGroup policy inferenceGroup).mapBody fun said => ⟨said, none⟩) <|
    ASTVisitor.visitAll
      (fun (defn, d) => (markedInferenceDefn policy defn).mapBody fun said =>
        ⟨said.body, said.mark.map fun p => ⟨g, d, p⟩⟩)
      inferenceGroup.inferenceDefns.zipIdx

/-- `run`. -/
def markedRun (opts : Options) (module : ASTModule) : Reported (Marked Diagnostic Place) Bool :=
  ASTVisitor.verify ((previsitModule opts.policy module).mapBody fun said => ⟨said, none⟩) <|
    ASTVisitor.visitAll (fun (group, g) => markedInferenceGroup opts.policy group g)
      module.inferenceGroups.zipIdx

/-! Without the marks it is the analyser. -/

theorem unmarked_call (body : Check (Marked Diagnostic Nat) TargetTable Unit) :
    (fun targetTbl => (call body targetTbl).mapBody Marked.body) = call (unmarked body) :=
  funext fun targetTbl => (call_mapBody Marked.body body targetTbl).symm

theorem unmarked_bind {α β : Type} (first : Check (Marked Diagnostic Nat) TargetTable α)
    (next : α → Check (Marked Diagnostic Nat) TargetTable β) :
    unmarked (first >>= next) = unmarked first >>= fun value => unmarked (next value) :=
  mapBody_bind Marked.body first next

theorem unmarked_returnOnFailure
    (callee : TargetTable → Reported (Marked Diagnostic Nat) (Bool × TargetTable)) :
    unmarked (returnOnFailure callee) =
      returnOnFailure fun targetTbl => (callee targetTbl).mapBody Marked.body :=
  mapBody_returnOnFailure Marked.body callee

mutual
theorem unmarked_premiseDefnCheck (context : InferenceDefnContext) (defn : ASTPremiseDefn) (place : Nat) :
    (fun targetTbl => (markedPremiseDefnCheck policy context defn place targetTbl).mapBody Marked.body) =
      recursivePremiseDefnCheck policy context defn := by
  match defn with
  | .inferencePremise ⟨source, target, none⟩ =>
      rw [markedPremiseDefnCheck, recursivePremiseDefnCheck]
      simp only [unmarked_call, unmarked_returnOnFailure, unmarked_bind, unmarked_marked]
  | .inferencePremise ⟨source, target, some body⟩ =>
      rw [markedPremiseDefnCheck, recursivePremiseDefnCheck]
      simp only [unmarked_call, unmarked_returnOnFailure, unmarked_bind, unmarked_marked,
        unmarked_premiseDefnsCheck context body]
  | .inferenceEquality equality =>
      rw [markedPremiseDefnCheck, recursivePremiseDefnCheck]
      simp only [unmarked_call, unmarked_returnOnFailure, Reported.mapBody_mapBody, Reported.mapBody_id]

theorem unmarked_premiseDefnsCheck (context : InferenceDefnContext) (defns : List ASTPremiseDefn)
    (place : Nat) :
    unmarked (markedPremiseDefnsCheck policy context defns place) =
      premiseDefnsCheck policy context defns := by
  match defns with
  | [] => rw [markedPremiseDefnsCheck, premiseDefnsCheck]; rfl
  | head :: tail =>
      rw [markedPremiseDefnsCheck, premiseDefnsCheck]
      simp only [unmarked_returnOnFailure, unmarked_bind, unmarked_premiseDefnCheck context head,
        unmarked_premiseDefnsCheck context tail]
end

/-- The outcome of a marked check is that of the check. -/
theorem markedPremiseDefnCheck_value (context : InferenceDefnContext) (defn : ASTPremiseDefn)
    (place : Nat) (targetTbl : TargetTable) :
    (markedPremiseDefnCheck policy context defn place targetTbl).value =
      (recursivePremiseDefnCheck policy context defn targetTbl).value := by
  rw [← unmarked_premiseDefnCheck policy context defn place, Reported.mapBody_value]

theorem markedInferenceDefn_unmarked (inferenceDefn : ASTInferenceDefn) :
    (markedInferenceDefn policy inferenceDefn).mapBody Marked.body =
      previsitInferenceDefn policy inferenceDefn := by
  rw [markedInferenceDefn, ← callLocal_mapBody]
  change callLocal (unmarked _) _ = _
  simp only [unmarked_bind, unmarked_marked, unmarked_premiseDefnsCheck]
  rfl

theorem verify_mapBody {δ δ' : Type} (f : δ → δ') (step rest : Reported δ Bool) :
    (ASTVisitor.verify step rest).mapBody f = ASTVisitor.verify (step.mapBody f) (rest.mapBody f) := by
  rw [ASTVisitor.verify, Reported.mapBody_bind, ASTVisitor.verify]
  congr 1
  funext answer
  cases answer with
  | true => rfl
  | false => rfl

theorem visitAll_mapBody {δ δ' α : Type} (f : δ → δ') (visit : α → Reported δ Bool) (items : List α) :
    (ASTVisitor.visitAll visit items).mapBody f =
      ASTVisitor.visitAll (fun item => (visit item).mapBody f) items := by
  induction items with
  | nil => rfl
  | cons head tail ih => rw [ASTVisitor.visitAll, verify_mapBody, ih, ASTVisitor.visitAll]

theorem visitAll_zipIdx {m : Type → Type} [Monad m] {α : Type} (visit : α → m Bool) (items : List α)
    (start : Nat) :
    ASTVisitor.visitAll (fun item => visit item.1) (items.zipIdx start) =
      ASTVisitor.visitAll visit items := by
  induction items generalizing start with
  | nil => rfl
  | cons head tail ih => rw [List.zipIdx_cons, ASTVisitor.visitAll, ih, ASTVisitor.visitAll]

theorem markedInferenceGroup_unmarked (inferenceGroup : ASTInferenceGroup) (g : Nat) :
    (markedInferenceGroup policy inferenceGroup g).mapBody Marked.body =
      (visitor policy).visitInferenceGroup inferenceGroup := by
  rw [markedInferenceGroup, visitInferenceGroup_eq, verify_mapBody, visitAll_mapBody]
  simp only [Reported.mapBody_mapBody, Reported.mapBody_id, markedInferenceDefn_unmarked]
  rw [visitAll_zipIdx (previsitInferenceDefn policy)]

end Marked

/-- The marked analyser registers what the analyser registers. -/
theorem markedRun_unmarked (opts : Options) (module : ASTModule) :
    (markedRun opts module).mapBody Marked.body = run opts module := by
  rw [markedRun, run, visitModule_eq, verify_mapBody, visitAll_mapBody]
  simp only [Reported.mapBody_mapBody, Reported.mapBody_id, markedInferenceGroup_unmarked]
  rw [visitAll_zipIdx (visitor opts.policy).visitInferenceGroup]

/-! ## Violations -/

/-- The symbols that the premises of an inference may start from. -/
def symbolsOf (defn : ASTInferenceDefn) : SymbolSet :=
  defn.argumentNames.toFinset ∪ defn.globalNames.toFinset

/-- The premise at index `p` fails a check, given the premises before it. -/
def Violation (symbolSet : SymbolSet) (premises : List ASTPremiseDefn) (targetTbl : TargetTable)
    (p : Nat) : Prop :=
  ∃ premise, premises[p]? = some premise ∧
    ¬ PremiseAccepted symbolSet premise (after record (premises.take p) targetTbl)

/-- The premise at index `q` is in the while clause of the one at index `p`, at any depth. -/
def Encloses (premises : List ASTPremiseDefn) (p q : Nat) : Prop :=
  ∃ premise, premises[p]? = some premise ∧ p < q ∧ q < p + premise.documentOrder.length

/-- A violation whose check no earlier violation prevents. -/
structure Exposed (symbolSet : SymbolSet) (premises : List ASTPremiseDefn) (targetTbl : TargetTable)
    (q : Nat) : Prop where
  violation : Violation symbolSet premises targetTbl q
  enclosed : ∀ p < q, Violation symbolSet premises targetTbl p → Encloses premises p q

section Violations

variable {symbolSet : SymbolSet} {premise : ASTPremiseDefn} {premises left right : List ASTPremiseDefn}
  {targetTbl : TargetTable} {p q : Nat}

theorem Violation.lt_length (violation : Violation symbolSet premises targetTbl p) :
    p < premises.length := by
  obtain ⟨premise, found, -⟩ := violation
  exact (List.getElem?_eq_some_iff.mp found).1

theorem violation_cons_zero :
    Violation symbolSet (premise :: premises) targetTbl 0 ↔
      ¬ PremiseAccepted symbolSet premise targetTbl := by
  simp [Violation, after]

theorem violation_append_left (inLeft : p < left.length) :
    Violation symbolSet (left ++ right) targetTbl p ↔ Violation symbolSet left targetTbl p := by
  rw [Violation, Violation, List.getElem?_append_left inLeft, List.take_append_of_le_length (by omega)]

theorem violation_append_right :
    Violation symbolSet (left ++ right) targetTbl (left.length + p) ↔
      Violation symbolSet right (after record left targetTbl) p := by
  rw [Violation, Violation, List.getElem?_append_right (by omega), Nat.add_sub_cancel_left,
    List.take_length_add_append, after_append]

theorem violation_cons_succ : Violation symbolSet (premise :: premises) targetTbl (p + 1) ↔
    Violation symbolSet premises (record premise targetTbl) p := by
  rw [Nat.add_comm]
  exact @violation_append_right symbolSet [premise] premises targetTbl p

theorem encloses_append_left (inLeft : p < left.length) :
    Encloses (left ++ right) p q ↔ Encloses left p q := by
  rw [Encloses, Encloses, List.getElem?_append_left inLeft]

theorem encloses_append_right :
    Encloses (left ++ right) (left.length + p) (left.length + q) ↔ Encloses right p q := by
  rw [Encloses, Encloses, List.getElem?_append_right (by omega), Nat.add_sub_cancel_left]
  refine exists_congr fun premise => and_congr_right' ?_
  omega

theorem encloses_cons_succ : Encloses (premise :: premises) (p + 1) (q + 1) ↔ Encloses premises p q := by
  rw [Nat.add_comm p, Nat.add_comm q]
  exact @encloses_append_right [premise] premises p q

theorem along_iff_forall_not_violation :
    Along (PremiseAccepted symbolSet) record premises targetTbl ↔
      ∀ p, ¬ Violation symbolSet premises targetTbl p := by
  induction premises generalizing targetTbl with
  | nil => simp [Along, Violation]
  | cons head tail ih =>
      rw [Along, ih]
      constructor
      · rintro ⟨accepted, none⟩ p violation
        cases p with
        | zero => exact violation_cons_zero.mp violation accepted
        | succ p => exact none p (violation_cons_succ.mp violation)
      · intro none
        refine ⟨?_, fun p violation => none (p + 1) (violation_cons_succ.mpr violation)⟩
        by_contra refused
        exact none 0 (violation_cons_zero.mpr refused)

/-- The while clauses of the premises end within the list. -/
def EndsWithin (premises : List ASTPremiseDefn) : Prop :=
  ∀ p premise, premises[p]? = some premise → p + premise.documentOrder.length ≤ premises.length

theorem EndsWithin.append (inLeft : EndsWithin left) (inRight : EndsWithin right) :
    EndsWithin (left ++ right) := by
  intro p premise found
  rw [List.length_append]
  by_cases inside : p < left.length
  · rw [List.getElem?_append_left inside] at found
    have ends := inLeft p premise found
    omega
  · rw [List.getElem?_append_right (by omega)] at found
    have ends := inRight (p - left.length) premise found
    omega

theorem endsWithin_nil : EndsWithin [] := by
  intro p premise found
  simp at found

theorem EndsWithin.cons (whole : premise.documentOrder.length = premises.length + 1)
    (ends : EndsWithin premises) : EndsWithin (premise :: premises) := by
  intro p inner found
  rw [List.length_cons]
  cases p with
  | zero =>
      obtain rfl := Option.some.inj found
      omega
  | succ p =>
      have within := ends p inner found
      omega

mutual
theorem endsWithin_documentOrder (premise : ASTPremiseDefn) : EndsWithin premise.documentOrder := by
  match premise with
  | .inferencePremise ⟨source, target, none⟩ => exact endsWithin_nil.cons rfl
  | .inferencePremise ⟨source, target, some body⟩ => exact (endsWithin_documentOrderList body).cons rfl
  | .inferenceEquality equality => exact endsWithin_nil.cons rfl

theorem endsWithin_documentOrderList (premises : List ASTPremiseDefn) :
    EndsWithin (ASTPremiseDefn.documentOrderList premises) := by
  match premises with
  | [] => exact endsWithin_nil
  | head :: tail =>
      rw [ASTPremiseDefn.documentOrderList]
      exact (endsWithin_documentOrder head).append (endsWithin_documentOrderList tail)
end

/-- Behind a list that ends its own while clauses a violation is exposed only if
the list is accepted. -/
theorem exposed_append (ends : EndsWithin left) :
    Exposed symbolSet (left ++ right) targetTbl q ↔
      Exposed symbolSet left targetTbl q ∨
        Along (PremiseAccepted symbolSet) record left targetTbl ∧
          ∃ r, q = left.length + r ∧ Exposed symbolSet right (after record left targetTbl) r := by
  constructor
  · intro exposed
    by_cases inLeft : q < left.length
    · refine .inl ⟨(violation_append_left inLeft).mp exposed.violation, fun p less violation => ?_⟩
      exact (encloses_append_left (by omega)).mp
        (exposed.enclosed p less ((violation_append_left (by omega)).mpr violation))
    · obtain ⟨r, rfl⟩ := Nat.exists_eq_add_of_le (Nat.le_of_not_lt inLeft)
      refine .inr ⟨?_, r, rfl, violation_append_right.mp exposed.violation, fun p less violation => ?_⟩
      · rw [along_iff_forall_not_violation]
        intro p violation
        have inside := violation.lt_length
        obtain ⟨premise, found, -, reaches⟩ := (encloses_append_left inside).mp
          (exposed.enclosed p (by omega) ((violation_append_left inside).mpr violation))
        have within := ends p premise found
        omega
      · exact encloses_append_right.mp
          (exposed.enclosed (left.length + p) (by omega) (violation_append_right.mpr violation))
  · rintro (exposed | ⟨accepted, r, rfl, exposed⟩)
    · have inLeft := exposed.violation.lt_length
      refine ⟨(violation_append_left inLeft).mpr exposed.violation, fun p less violation => ?_⟩
      exact (encloses_append_left (by omega)).mpr
        (exposed.enclosed p less ((violation_append_left (by omega)).mp violation))
    · refine ⟨violation_append_right.mpr exposed.violation, fun p less violation => ?_⟩
      by_cases inside : p < left.length
      · exact absurd ((violation_append_left inside).mp violation)
          (along_iff_forall_not_violation.mp accepted p)
      · obtain ⟨s, rfl⟩ := Nat.exists_eq_add_of_le (Nat.le_of_not_lt inside)
        exact encloses_append_right.mpr
          (exposed.enclosed s (by omega) (violation_append_right.mp violation))

/-- A premise hides no violation in its own while clause. -/
theorem exposed_cons (whole : premise.documentOrder.length = premises.length + 1) :
    Exposed symbolSet (premise :: premises) targetTbl q ↔
      q = 0 ∧ ¬ PremiseAccepted symbolSet premise targetTbl ∨
        ∃ r, q = r + 1 ∧ Exposed symbolSet premises (record premise targetTbl) r := by
  cases q with
  | zero =>
      constructor
      · intro exposed
        exact .inl ⟨rfl, violation_cons_zero.mp exposed.violation⟩
      · rintro (⟨-, refused⟩ | ⟨r, same, -⟩)
        · exact ⟨violation_cons_zero.mpr refused, fun p less => absurd less (Nat.not_lt_zero p)⟩
        · exact absurd same (Nat.succ_ne_zero r).symm
  | succ q =>
      constructor
      · intro exposed
        refine .inr ⟨q, rfl, violation_cons_succ.mp exposed.violation, fun p less violation => ?_⟩
        exact encloses_cons_succ.mp
          (exposed.enclosed (p + 1) (Nat.succ_lt_succ less) (violation_cons_succ.mpr violation))
      · rintro (⟨same, -⟩ | ⟨r, same, exposed⟩)
        · exact absurd same (Nat.succ_ne_zero q)
        · obtain rfl := Nat.succ.inj same
          have inside := exposed.violation.lt_length
          refine ⟨violation_cons_succ.mpr exposed.violation, fun p less violation => ?_⟩
          cases p with
          | zero => exact ⟨premise, rfl, less, by omega⟩
          | succ p =>
              exact encloses_cons_succ.mpr
                (exposed.enclosed p (Nat.lt_of_succ_lt_succ less) (violation_cons_succ.mp violation))

/-- The indices of the exposed violations, counted from `place`. -/
def ExposedFrom (place : Nat) (symbolSet : SymbolSet) (premises : List ASTPremiseDefn)
    (targetTbl : TargetTable) (mark : Nat) : Prop :=
  ∃ q, mark = place + q ∧ Exposed symbolSet premises targetTbl q

theorem exposedFrom_nil {place mark : Nat} : ¬ ExposedFrom place symbolSet [] targetTbl mark := by
  rintro ⟨q, -, exposed⟩
  exact absurd exposed.violation.lt_length (Nat.not_lt_zero q)

theorem exposedFrom_zero : ExposedFrom 0 symbolSet premises targetTbl q ↔
    Exposed symbolSet premises targetTbl q := by
  simp [ExposedFrom]

theorem exposedFrom_cons {place mark : Nat} (whole : premise.documentOrder.length = premises.length + 1) :
    ExposedFrom place symbolSet (premise :: premises) targetTbl mark ↔
      mark = place ∧ ¬ PremiseAccepted symbolSet premise targetTbl ∨
        ExposedFrom (place + 1) symbolSet premises (record premise targetTbl) mark := by
  simp only [ExposedFrom, exposed_cons whole]
  constructor
  · rintro ⟨q, rfl, ⟨rfl, refused⟩ | ⟨r, rfl, exposed⟩⟩
    · exact .inl ⟨rfl, refused⟩
    · exact .inr ⟨r, by omega, exposed⟩
  · rintro (⟨rfl, refused⟩ | ⟨r, rfl, exposed⟩)
    · exact ⟨0, rfl, .inl ⟨rfl, refused⟩⟩
    · exact ⟨r + 1, by omega, .inr ⟨r, rfl, exposed⟩⟩

theorem exposedFrom_append {place mark : Nat} (ends : EndsWithin left) :
    ExposedFrom place symbolSet (left ++ right) targetTbl mark ↔
      ExposedFrom place symbolSet left targetTbl mark ∨
        Along (PremiseAccepted symbolSet) record left targetTbl ∧
          ExposedFrom (place + left.length) symbolSet right (after record left targetTbl) mark := by
  simp only [ExposedFrom, exposed_append ends]
  constructor
  · rintro ⟨q, rfl, exposed | ⟨accepted, r, rfl, exposed⟩⟩
    · exact .inl ⟨q, rfl, exposed⟩
    · exact .inr ⟨accepted, r, by omega, exposed⟩
  · rintro (⟨q, rfl, exposed⟩ | ⟨accepted, r, rfl, exposed⟩)
    · exact ⟨q, rfl, .inl exposed⟩
    · exact ⟨left.length + r, by omega, .inr ⟨accepted, r, rfl, exposed⟩⟩

end Violations

/-! ## The marks of the premises -/

theorem speaks_insertDistinct {σ : Type} {report : StringType → Check Diagnostic σ Unit}
    (reports : ∀ name state, Speaks (report name) state False state ()) (names : List StringType)
    (nameSet : SymbolSet) (state : σ) :
    ∃ condition, Speaks (insertDistinct report names nameSet) state condition state
      (names.toFinset ∪ nameSet) := by
  induction names generalizing nameSet with
  | nil =>
      rw [insertDistinct, List.toFinset_nil, Finset.empty_union]
      exact ⟨_, speaks_pure nameSet state⟩
  | cons name rest ih =>
      rw [insertDistinct, List.toFinset_cons, Finset.insert_union]
      by_cases present : name ∈ nameSet
      · obtain ⟨condition, later⟩ := ih nameSet
        rw [if_pos present, Finset.insert_eq_of_mem (Finset.mem_union_right _ present)]
        exact ⟨_, speaks_bind (reports name state) later⟩
      · obtain ⟨condition, later⟩ := ih (insert name nameSet)
        rw [Finset.union_insert] at later
        rw [if_neg present]
        exact ⟨condition, later⟩

section Marks

variable {policy : Policy} (keepsGoing : policy.bailOnFirstError = false) (context : InferenceDefnContext)
include keepsGoing

theorem speaks_sourceCheck (source : ASTIdentifiable) (targetTbl : TargetTable) :
    Speaks (sourceCheck policy context source) targetTbl
      (ASTUtils.getRootOfASTIdentifiable source ∈ context.symbolSet) targetTbl () :=
  (speaks_when (speaks_onError keepsGoing _ targetTbl) _).of_iff (by simp)

theorem speaks_targetCheck (target : ASTDeductionTarget) (targetTbl : TargetTable) :
    Speaks (targetCheck policy context target) targetTbl
      (ASTUtils.hasIncompatibleTargetInTable target targetTbl = false)
      (ASTUtils.addTargetToTable target targetTbl) () :=
  speaks_get_bind <|
    (speaks_bind (speaks_when (speaks_onError keepsGoing _ targetTbl) _)
      (speaks_modify (ASTUtils.addTargetToTable target) targetTbl)).of_iff (by simp)

theorem speaks_rangeClauseCheck (rangeClause : ASTRangeClause) (targetTbl : TargetTable) :
    Speaks (rangeClauseCheck policy context rangeClause) targetTbl
      (rangeClause.deductionTarget.isSingular = false ∧
        ASTUtils.hasCompatibleTargetInTable rangeClause.deductionTarget targetTbl = true)
      targetTbl () :=
  (speaks_bind (speaks_when (speaks_onError keepsGoing _ targetTbl) _)
    (speaks_get_bind (speaks_when (speaks_onError keepsGoing _ targetTbl) _))).of_iff (by simp)

theorem equalityDefnCheck_silent_iff (defn : ASTInferenceEqualityDefn) (targetTbl : TargetTable) :
    (equalityDefnCheck policy context defn targetTbl).log = [] ↔
      PremiseAccepted context.symbolSet (.inferenceEquality defn) targetTbl := by
  have operands := speaks_when (speaks_onError keepsGoing
    (diagnostic .incompatibleTargetType
      ("Incompatible targets in expression in inference \"" ++ context.name ++ "\".")) targetTbl)
    (!ASTUtils.areTargetsCompatible defn.lhs defn.rhs)
  apply Speaks.call
  cases clause : defn.rangeClause with
  | none =>
      refine (speaks_bind operands (speaks_pure () targetTbl)).of_iff ?_
      simp [PremiseAccepted, clause]
  | some rangeClause =>
      refine (speaks_bind operands
        (speaks_rangeClauseCheck keepsGoing context rangeClause targetTbl)).of_iff ?_
      simp [PremiseAccepted, clause]

/-- The checks of an inference premise without its while clause. -/
theorem registers_ownChecks (source : ASTIdentifiable) (target : ASTDeductionTarget)
    (whileClause : Option (List ASTPremiseDefn)) (place : Nat) (targetTbl : TargetTable)
    {next : Check (Marked Diagnostic Nat) TargetTable Unit} {marks : Nat → Prop} {onward : Prop}
    {targetTbl' : TargetTable} (hnext : Registers next
      (record (.inferencePremise ⟨source, target, whileClause⟩) targetTbl) marks onward targetTbl' ()) :
    Registers (do
        marked (some place) (sourceCheck policy context source)
        marked (some place) (targetCheck policy context target)
        next) targetTbl
      (fun mark => mark = place ∧ ¬ PremiseAccepted context.symbolSet
        (.inferencePremise ⟨source, target, whileClause⟩) targetTbl ∨ marks mark) onward targetTbl' () := by
  refine (registers_seq
    (registers_marked (speaks_sourceCheck keepsGoing context source targetTbl) (some place)) fun _ =>
    registers_seq
      (registers_marked (speaks_targetCheck keepsGoing context target targetTbl) (some place))
      fun _ => hnext).of_iff (fun mark => ?_) (by simp)
  simp only [PremiseAccepted, Option.some.injEq, true_and, ← or_assoc, ← and_or_left, not_and_or]
  rw [eq_comm]

set_option linter.unusedSectionVars false in
mutual
theorem marks_premiseDefnCheck (defn : ASTPremiseDefn) (place : Nat) (targetTbl : TargetTable)
    (mark : Nat) :
    Marks (markedPremiseDefnCheck policy context defn place targetTbl).log mark ↔
      ExposedFrom place context.symbolSet defn.documentOrder targetTbl mark := by
  match defn with
  | .inferencePremise ⟨source, target, none⟩ =>
      have own := registers_ownChecks keepsGoing context source target none place targetTbl
        (registers_pure () _)
      rw [bind_pure_unit] at own
      rw [markedPremiseDefnCheck, (registers_returnOnFailure _ _).call, own.call,
        ASTPremiseDefn.documentOrder, exposedFrom_cons rfl, or_false, or_iff_left exposedFrom_nil]
  | .inferencePremise ⟨source, target, some body⟩ =>
      have own := registers_ownChecks keepsGoing context source target (some body) place targetTbl
        (registers_premiseDefnsCheck body (place + 1) _)
      rw [markedPremiseDefnCheck, (registers_returnOnFailure _ _).call, own.call,
        ASTPremiseDefn.documentOrder, exposedFrom_cons rfl]
  | .inferenceEquality equality =>
      rw [markedPremiseDefnCheck, (registers_returnOnFailure _ _).call, marks_mapBody_mark, Ne,
        equalityDefnCheck_silent_iff keepsGoing context, ASTPremiseDefn.documentOrder,
        exposedFrom_cons rfl, or_iff_left exposedFrom_nil, Option.some.injEq, eq_comm]

theorem registers_premiseDefnsCheck (defns : List ASTPremiseDefn) (place : Nat) (targetTbl : TargetTable) :
    Registers (markedPremiseDefnsCheck policy context defns place) targetTbl
      (ExposedFrom place context.symbolSet (ASTPremiseDefn.documentOrderList defns) targetTbl)
      (Along (PremiseAccepted context.symbolSet) record
        (ASTPremiseDefn.documentOrderList defns) targetTbl)
      (after record (ASTPremiseDefn.documentOrderList defns) targetTbl) () := by
  match defns with
  | [] =>
      exact (registers_pure () targetTbl).of_iff (fun mark => (iff_false_intro exposedFrom_nil).symm) Iff.rfl
  | head :: tail =>
      have checked := recursivePremiseDefnCheck_iff policy context head targetTbl
      rw [← markedPremiseDefnCheck_value policy context head place] at checked
      rw [ASTPremiseDefn.documentOrderList, after_append, markedPremiseDefnsCheck]
      have rest : (markedPremiseDefnCheck policy context head place targetTbl).value.1 = true →
          Registers (markedPremiseDefnsCheck policy context tail (place + head.documentOrder.length))
            (markedPremiseDefnCheck policy context head place targetTbl).value.2
            (ExposedFrom (place + head.documentOrder.length) context.symbolSet
              (ASTPremiseDefn.documentOrderList tail) (after record head.documentOrder targetTbl))
            (Along (PremiseAccepted context.symbolSet) record (ASTPremiseDefn.documentOrderList tail)
              (after record head.documentOrder targetTbl))
            (after record (ASTPremiseDefn.documentOrderList tail)
              (after record head.documentOrder targetTbl)) () := by
        intro onward
        rw [checked.2 (checked.1.mp onward)]
        exact registers_premiseDefnsCheck tail _ _
      have both := registers_seq
        (registers_returnOnFailure (markedPremiseDefnCheck policy context head place) targetTbl) rest
      refine both.of_iff (fun mark => ?_) ((and_congr_left' checked.1).trans along_append.symm)
      rw [marks_premiseDefnCheck head, checked.1, exposedFrom_append (endsWithin_documentOrder head)]
end

/-! ## The marks of a run -/

omit context in
/-- A hook marks the exposed violations of its inference. -/
theorem marks_inferenceDefn (defn : ASTInferenceDefn) (p : Nat) :
    Marks (markedInferenceDefn policy defn).log p ↔
      Exposed (symbolsOf defn) defn.allPremises (fun _ => none) p := by
  obtain ⟨_, globals⟩ := speaks_insertDistinct (fun name state => speaks_onWarning keepsGoing
    (diagnostic .duplicateGlobalDefinition
      ("Found duplicate symbol (global declaration) with name \"" ++ name ++ "\".")) state)
    defn.globalNames ∅ (fun _ => none : TargetTable)
  obtain ⟨_, arguments⟩ := speaks_insertDistinct (fun name state => speaks_onError keepsGoing
    (diagnostic .duplicateArgumentIdentifier
      ("Found duplicate symbol (argument) with name \"" ++ name ++ "\".")) state)
    defn.argumentNames (defn.globalNames.toFinset ∪ ∅) (fun _ => none : TargetTable)
  have premises := registers_premiseDefnsCheck keepsGoing
    ⟨defn.name, defn.argumentNames.toFinset ∪ (defn.globalNames.toFinset ∪ ∅)⟩ defn.premiseDefns 0
    fun _ => none
  have proposition := fun targetTbl : TargetTable => registers_marked (speaks_when (speaks_onError keepsGoing
    (diagnostic .invalidTargetType
      ("Invalid proposition target type in inference \"" ++ defn.name ++ "\".")) targetTbl)
    (!ASTUtils.hasCompatibleTargetInTable defn.propositionDefn.target targetTbl)) (none : Option Nat)
  rw [markedInferenceDefn, callLocal]
  refine (Registers.call (registers_bind (registers_marked globals none) fun _ =>
    registers_bind (registers_marked arguments none) fun _ =>
      registers_seq premises fun _ => registers_get_bind (proposition _)) p).trans ?_
  simp [exposedFrom_zero, symbolsOf, ASTInferenceDefn.allPremises]

end Marks

theorem marks_verify {κ : Type} {step rest : Reported (Marked Diagnostic κ) Bool} {mark : κ} :
    Marks (ASTVisitor.verify step rest).log mark ↔
      Marks step.log mark ∨ step.value = true ∧ Marks rest.log mark := by
  rw [ASTVisitor.verify, Reported.bind_log, marks_append]
  cases step.value with
  | true => simp
  | false => simp

/-- A walk marks what it marks in one item, if it gets there. -/
theorem marks_visitAll {κ α : Type} {visit : α → Reported (Marked Diagnostic κ) Bool} {items : List α}
    {mark : κ} :
    Marks (ASTVisitor.visitAll visit items).log mark ↔
      ∃ (i : Nat) (item : α), items[i]? = some item ∧
        (∀ j < i, ∀ other, items[j]? = some other → (visit other).value = true) ∧
          Marks (visit item).log mark := by
  induction items with
  | nil => simp [ASTVisitor.visitAll]
  | cons head tail ih =>
      rw [ASTVisitor.visitAll, marks_verify, ih]
      constructor
      · rintro (here | ⟨passed, i, item, found, earlier, there⟩)
        · exact ⟨0, head, rfl, fun j less => absurd less (Nat.not_lt_zero j), here⟩
        · refine ⟨i + 1, item, found, fun j less other found' => ?_, there⟩
          cases j with
          | zero =>
              obtain rfl := Option.some.inj found'
              exact passed
          | succ j => exact earlier j (Nat.lt_of_succ_lt_succ less) other found'
      · rintro ⟨i, item, found, earlier, marks⟩
        cases i with
        | zero =>
            obtain rfl := Option.some.inj found
            exact .inl marks
        | succ i =>
            exact .inr ⟨earlier 0 (Nat.succ_pos i) head rfl, i, item, found,
              fun j less other found' => earlier (j + 1) (Nat.succ_lt_succ less) other found', marks⟩

/-- `marks_visitAll`, of a walk that counts. -/
theorem marks_visitAll_zipIdx {κ α : Type} {visit : α × Nat → Reported (Marked Diagnostic κ) Bool}
    {items : List α} {mark : κ} :
    Marks (ASTVisitor.visitAll visit items.zipIdx).log mark ↔
      ∃ (i : Nat) (item : α), items[i]? = some item ∧
        (∀ j < i, ∀ other, items[j]? = some other → (visit (other, j)).value = true) ∧
          Marks (visit (item, i)).log mark := by
  have counted : ∀ (i : Nat) (entry : α × Nat), items.zipIdx[i]? = some entry ↔
      ∃ item, items[i]? = some item ∧ (item, i) = entry := by
    intro i entry
    rw [List.getElem?_zipIdx, Option.map_eq_some_iff]
    simp
  rw [marks_visitAll]
  constructor
  · rintro ⟨i, entry, here, earlier, marks⟩
    obtain ⟨item, found, rfl⟩ := (counted i entry).mp here
    exact ⟨i, item, found, fun j less other found' =>
      earlier j less (other, j) ((counted j _).mpr ⟨other, found', rfl⟩), marks⟩
  · rintro ⟨i, item, found, earlier, marks⟩
    refine ⟨i, (item, i), (counted i _).mpr ⟨item, found, rfl⟩, fun j less entry there => ?_, marks⟩
    obtain ⟨other, found', rfl⟩ := (counted j entry).mp there
    exact earlier j less other found'

/-! ## Every violation -/

/-- The inference that the place points into, with its group. -/
structure PointsInto (module : ASTModule) (place : Place) (group : ASTInferenceGroup)
    (defn : ASTInferenceDefn) : Prop where
  groupAt : module.inferenceGroups[place.group]? = some group
  inferenceAt : group.inferenceDefns[place.inference]? = some defn

/-- The premise at the place fails a check, given the premises before it. -/
def ViolationAt (module : ASTModule) (place : Place) : Prop :=
  ∃ group defn, PointsInto module place group defn ∧
    Violation (symbolsOf defn) defn.allPremises (fun _ => none) place.premise

/-- Each premise that fails a check gets a report. -/
def ReportsEvery (opts : Options) (module : ASTModule) : Prop :=
  ∀ place, ViolationAt module place → Marks (markedRun opts module).log place

/-- Nothing before the place ends the walk: the groups and inferences before it
are well formed, its own group has no name twice, and a violation before it in
its own inference is the head of a while clause around it. -/
structure Unobstructed (warningsAsErrors : Bool) (module : ASTModule) (place : Place) : Prop where
  groups : ∀ g < place.group, ∀ other, module.inferenceGroups[g]? = some other →
    other.WellFormed warningsAsErrors
  fields : ∀ group defn, PointsInto module place group defn → warningsAsErrors = true → group.fields.Nodup
  names : ∀ group defn, PointsInto module place group defn → (group.inferenceDefns.map (·.name)).Nodup
  inferences : ∀ group defn, PointsInto module place group defn → ∀ d < place.inference,
    ∀ other, group.inferenceDefns[d]? = some other → other.WellFormed warningsAsErrors
  premises : ∀ group defn, PointsInto module place group defn → ∀ p < place.premise,
    Violation (symbolsOf defn) defn.allPremises (fun _ => none) p →
      Encloses defn.allPremises p place.premise

theorem marks_inferenceGroup {policy : Policy} (keepsGoing : policy.bailOnFirstError = false)
    (group : ASTInferenceGroup) (g : Nat) (place : Place) :
    Marks (markedInferenceGroup policy group g).log place ↔
      place.group = g ∧ (previsitInferenceGroup policy group).value = true ∧
        ∃ defn, group.inferenceDefns[place.inference]? = some defn ∧
          (∀ d < place.inference, ∀ other, group.inferenceDefns[d]? = some other →
            other.WellFormed policy.warningsAsErrors) ∧
          Exposed (symbolsOf defn) defn.allPremises (fun _ => none) place.premise := by
  have verdict : ∀ defn, (markedInferenceDefn policy defn).value = true ↔
      defn.WellFormed policy.warningsAsErrors := by
    intro defn
    rw [← previsitInferenceDefn_iff, ← markedInferenceDefn_unmarked, Reported.mapBody_value]
  simp only [markedInferenceGroup, marks_verify, marks_mapBody_mark, reduceCtorEq, false_and, false_or,
    Reported.mapBody_value, marks_visitAll_zipIdx, marks_mapBody_map, marks_inferenceDefn keepsGoing,
    verdict]
  constructor
  · rintro ⟨passed, d, defn, found, earlier, p, exposed, rfl⟩
    exact ⟨rfl, passed, defn, found, earlier, exposed⟩
  · rintro ⟨rfl, passed, defn, found, earlier, exposed⟩
    exact ⟨passed, place.inference, defn, found, earlier, place.premise, exposed, rfl⟩

theorem marks_run {opts : Options} {module : ASTModule} (keepsGoing : opts.bailOnFirstError = false)
    (groupNames : (module.inferenceGroups.map (·.name)).Nodup)
    (required : ∀ group ∈ module.inferenceGroups, ∀ key ∈ mandatoryEnvDefns, key ∈ group.fields)
    (place : Place) :
    Marks (markedRun opts module).log place ↔
      ViolationAt module place ∧ Unobstructed opts.warningsAsErrors module place := by
  have verdict : ∀ group g, (markedInferenceGroup opts.policy group g).value = true ↔
      group.WellFormed opts.warningsAsErrors := by
    intro group g
    rw [← Reported.mapBody_value Marked.body, markedInferenceGroup_unmarked, visitInferenceGroup_iff]
    rfl
  have begun : (previsitModule opts.policy module).value = true := (previsitModule_iff _ _).mpr groupNames
  simp only [markedRun, marks_verify, marks_mapBody_mark, reduceCtorEq, false_and, false_or,
    Reported.mapBody_value, begun, true_and, marks_visitAll_zipIdx, verdict,
    @marks_inferenceGroup opts.policy keepsGoing, previsitInferenceGroup_iff]
  constructor
  · rintro ⟨g, group, found, groups, rfl, ⟨fields, -, names⟩, defn, found', inferences, exposed⟩
    have only : ∀ other other', PointsInto module place other other' → group = other ∧ defn = other' := by
      intro other other' inside
      obtain rfl := Option.some.inj (found.symm.trans inside.groupAt)
      exact ⟨rfl, Option.some.inj (found'.symm.trans inside.inferenceAt)⟩
    refine ⟨⟨group, defn, ⟨found, found'⟩, exposed.violation⟩, groups, ?_, ?_, ?_, ?_⟩
    · intro other other' inside
      obtain ⟨rfl, rfl⟩ := only other other' inside
      exact fields
    · intro other other' inside
      obtain ⟨rfl, rfl⟩ := only other other' inside
      exact names
    · intro other other' inside
      obtain ⟨rfl, rfl⟩ := only other other' inside
      exact inferences
    · intro other other' inside
      obtain ⟨rfl, rfl⟩ := only other other' inside
      exact exposed.enclosed
  · rintro ⟨⟨group, defn, inside, violation⟩, unobstructed⟩
    exact ⟨place.group, group, inside.groupAt, unobstructed.groups, rfl,
      ⟨unobstructed.fields group defn inside, required group (List.mem_of_getElem? inside.groupAt),
        unobstructed.names group defn inside⟩,
      defn, inside.inferenceAt, unobstructed.inferences group defn inside,
      violation, unobstructed.premises group defn inside⟩

/-- Without `bailOnFirstError` each violation gets a report exactly if none is obstructed. -/
theorem reportsEvery_iff (opts : Options) (module : ASTModule)
    (keepsGoing : opts.bailOnFirstError = false)
    (groupNames : (module.inferenceGroups.map (·.name)).Nodup)
    (required : ∀ group ∈ module.inferenceGroups, ∀ key ∈ mandatoryEnvDefns, key ∈ group.fields) :
    ReportsEvery opts module ↔
      ∀ place, ViolationAt module place → Unobstructed opts.warningsAsErrors module place := by
  constructor
  · intro reports place violation
    exact ((marks_run keepsGoing groupNames required place).mp (reports place violation)).2
  · intro unobstructed place violation
    exact (marks_run keepsGoing groupNames required place).mpr ⟨violation, unobstructed place violation⟩

theorem staticMethodStaticDispatch_reportsEvery_iff :
    ReportsEvery ⟨false, false, false⟩ (.ofInference staticMethodStaticDispatch) ↔
      ∀ place, ViolationAt (.ofInference staticMethodStaticDispatch) place →
        Unobstructed false (.ofInference staticMethodStaticDispatch) place :=
  reportsEvery_iff ⟨false, false, false⟩ (.ofInference staticMethodStaticDispatch) rfl
    (by decide) (by decide)

/-- An assignment between two variables, neither of which is an argument. -/
def assignment : ASTInferenceDefn where
  name := "Assignment"
  globalDecls := []
  arguments := [⟨"expr", "ASTExpr"⟩]
  premiseDefns := [
    .inferencePremise ⟨⟨["source", "type"]⟩, .singular "SourceType", none⟩,
    .inferencePremise ⟨⟨["target", "type"]⟩, .singular "TargetType", none⟩]
  propositionDefn := ⟨.singular "TargetType"⟩

/-- The analyser reports `source` and stops before `target`. -/
theorem assignment_reported_once :
    (run ⟨false, false, false⟩ (.ofInference assignment)).log.map (·.body.msg) =
        ["Unknown symbol \"source\" used in inference \"Assignment\"."] ∧
      ¬ ReportsEvery ⟨false, false, false⟩ (.ofInference assignment) := by
  refine ⟨by decide, fun reports => ?_⟩
  have violation : ViolationAt (.ofInference assignment) ⟨0, 0, 1⟩ :=
    ⟨_, assignment, ⟨rfl, rfl⟩, _, rfl, fun accepted => absurd accepted.1 (by decide)⟩
  exact absurd (reports ⟨0, 0, 1⟩ violation) (by decide)

end SemanticAnalyzer

end Snowlake
