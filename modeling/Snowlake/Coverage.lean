import Snowlake.Traversal
import Snowlake.Sema.WellFormed

/-! # What the visit of a module leaves out

The visit of an inference premise calls its two hooks and goes no deeper: not to
its target, not into its while clause, although there is a `visit` for while
clauses.  Nor does the visit of a computed target go to its arguments.
-/

namespace Snowlake

open Traversal

mutual
/-- The arguments of a target, at any depth. -/
def ASTDeductionTarget.allArguments : ASTDeductionTarget → List ASTDeductionTarget
  | .singular _ | .array _ _ => []
  | .computed _ arguments => allArgumentsList arguments

def ASTDeductionTarget.allArgumentsList : List ASTDeductionTarget → List ASTDeductionTarget
  | [] => []
  | head :: tail => head :: (allArguments head ++ allArgumentsList tail)
end

def ASTDeductionTarget.withArguments (target : ASTDeductionTarget) : List ASTDeductionTarget :=
  target :: target.allArguments

/-- The targets to visit for a premise, its while clause apart.  The bound of a
range clause is not among them, but its arguments are. -/
def ASTPremiseDefn.targetsToVisit : ASTPremiseDefn → List ASTDeductionTarget
  | .inferencePremise defn => defn.deductionTarget.withArguments
  | .inferenceEquality defn =>
      defn.lhs.withArguments ++ defn.rhs.withArguments ++
        (defn.rangeClause.map (·.deductionTarget.allArguments)).getD []

def ASTInferenceDefn.allTargets (inferenceDefn : ASTInferenceDefn) : List ASTDeductionTarget :=
  (ASTPremiseDefn.documentOrderList inferenceDefn.premiseDefns).flatMap ASTPremiseDefn.targetsToVisit ++
    inferenceDefn.propositionDefn.target.withArguments

def ASTModule.inferences (module : ASTModule) : List ASTInferenceDefn :=
  module.inferenceGroups.flatMap (·.inferenceDefns)

/-- The premises of a module, at any depth of while clauses. -/
def ASTModule.allPremises (module : ASTModule) : List ASTPremiseDefn :=
  module.inferences.flatMap fun inferenceDefn =>
    ASTPremiseDefn.documentOrderList inferenceDefn.premiseDefns

def ASTModule.allTargets (module : ASTModule) : List ASTDeductionTarget :=
  module.inferences.flatMap ASTInferenceDefn.allTargets

namespace ASTNode

/-- The premise whose hook it is. -/
def premise : ASTNode → Option ASTPremiseDefn
  | .inferencePremiseDefn defn => some (.inferencePremise defn)
  | .inferenceEqualityDefn defn => some (.inferenceEquality defn)
  | _ => none

def target : ASTNode → Option ASTDeductionTarget
  | .deductionTarget visited => some visited
  | _ => none

end ASTNode

/-- The hooks called are those of all premises and targets, each called once
before and once after. -/
structure VisitsAll (module : ASTModule) (events : List (WalkEvent ASTNode)) : Prop where
  premisesEntered : ((events.filterMap WalkEvent.entered).filterMap ASTNode.premise).Perm module.allPremises
  premisesLeft : ((events.filterMap WalkEvent.left).filterMap ASTNode.premise).Perm module.allPremises
  targetsEntered : ((events.filterMap WalkEvent.entered).filterMap ASTNode.target).Perm module.allTargets
  targetsLeft : ((events.filterMap WalkEvent.left).filterMap ASTNode.target).Perm module.allTargets

/-! ## What is visited -/

theorem filterMap_preorderList {α β : Type} (pick : ASTNode → Option β) (tree : α → OrderedTree ASTNode)
    (items : List α) :
    (OrderedTree.preorderList (items.map tree)).filterMap pick =
      items.flatMap fun item => (tree item).preorder.filterMap pick := by
  induction items with
  | nil => rfl
  | cons head tail ih =>
      rw [List.map_cons, OrderedTree.preorderList, List.filterMap_append, ih, List.flatMap_cons]

theorem preorderList_append {ν : Type} (first second : List (OrderedTree ν)) :
    OrderedTree.preorderList (first ++ second) =
      OrderedTree.preorderList first ++ OrderedTree.preorderList second := by
  induction first with
  | nil => rfl
  | cons head tail ih => simp only [List.cons_append, OrderedTree.preorderList, ih, List.append_assoc]

/-- Leaves that are not picked contribute nothing. -/
theorem filterMap_leaves {α β : Type} {pick : ASTNode → Option β} {node : α → ASTNode}
    (skips : ∀ item, pick (node item) = none) (items : List α) :
    (OrderedTree.preorderList (items.map fun item => .leaf (node item))).filterMap pick = [] := by
  rw [filterMap_preorderList, List.flatMap_eq_nil_iff]
  intro item _
  simp [OrderedTree.leaf, OrderedTree.preorder, OrderedTree.preorderList, skips item]

theorem filterMap_module {β : Type} {pick : ASTNode → Option β}
    (skipsModule : ∀ module, pick (.module module) = none)
    (skipsGroup : ∀ inferenceGroup, pick (.inferenceGroup inferenceGroup) = none)
    (skipsEnvironment : ∀ environmentDefn, pick (.environmentDefn environmentDefn) = none)
    (module : ASTModule) :
    module.tree.preorder.filterMap pick =
      module.inferences.flatMap fun inferenceDefn => inferenceDefn.tree.preorder.filterMap pick := by
  rw [ASTModule.tree, OrderedTree.preorder, List.filterMap_cons_none (skipsModule module),
    filterMap_preorderList, ASTModule.inferences, List.flatMap_assoc]
  apply List.flatMap_congr
  intro inferenceGroup _
  rw [ASTInferenceGroup.tree, OrderedTree.preorder, List.filterMap_cons_none (skipsGroup inferenceGroup),
    preorderList_append, List.filterMap_append, filterMap_leaves skipsEnvironment, List.nil_append,
    filterMap_preorderList]

/-- The targets that the visit of a premise comes to. -/
def ASTPremiseDefn.visitedTargets : ASTPremiseDefn → List ASTDeductionTarget
  | .inferencePremise _ => []
  | .inferenceEquality defn => [defn.lhs, defn.rhs]

theorem filterMap_inference {β : Type} {pick : ASTNode → Option β}
    (skipsInference : ∀ inferenceDefn, pick (.inferenceDefn inferenceDefn) = none)
    (skipsGlobalDecl : ∀ globalDecl, pick (.globalDecl globalDecl) = none)
    (skipsArgument : ∀ argument, pick (.inferenceArgument argument) = none)
    (inferenceDefn : ASTInferenceDefn) :
    inferenceDefn.tree.preorder.filterMap pick =
      (inferenceDefn.premiseDefns.flatMap fun premise => premise.tree.preorder.filterMap pick) ++
        inferenceDefn.propositionDefn.tree.preorder.filterMap pick := by
  rw [ASTInferenceDefn.tree, OrderedTree.preorder, List.filterMap_cons_none (skipsInference inferenceDefn),
    preorderList_append, preorderList_append, preorderList_append, List.filterMap_append,
    List.filterMap_append, List.filterMap_append, filterMap_leaves skipsGlobalDecl,
    filterMap_leaves skipsArgument, List.nil_append, List.nil_append, filterMap_preorderList]
  simp [OrderedTree.preorderList]

theorem target_preorder_premise (target : ASTDeductionTarget) :
    target.tree.preorder.filterMap ASTNode.premise = [] := by
  cases target <;> rfl

theorem target_preorder_target (target : ASTDeductionTarget) :
    target.tree.preorder.filterMap ASTNode.target = [target] := by
  cases target <;> rfl

theorem visitedPremises (module : ASTModule) :
    module.tree.preorder.filterMap ASTNode.premise =
      module.inferences.flatMap (·.premiseDefns) := by
  rw [filterMap_module (fun _ => rfl) (fun _ => rfl) (fun _ => rfl)]
  apply List.flatMap_congr
  intro inferenceDefn _
  rw [filterMap_inference (fun _ => rfl) (fun _ => rfl) (fun _ => rfl)]
  have proposition : inferenceDefn.propositionDefn.tree.preorder.filterMap ASTNode.premise = [] := by
    rw [ASTPropositionDefn.tree, OrderedTree.preorder, List.filterMap_cons_none rfl,
      OrderedTree.preorderList, OrderedTree.preorderList, List.append_nil, target_preorder_premise]
  have premise (premise : ASTPremiseDefn) : premise.tree.preorder.filterMap ASTNode.premise = [premise] := by
    cases premise with
    | inferencePremise defn => rfl
    | inferenceEquality defn =>
        simp only [ASTPremiseDefn.tree, OrderedTree.preorder, OrderedTree.preorderList,
          List.filterMap_cons, ASTNode.premise, List.filterMap_append, target_preorder_premise,
          List.append_nil]
  simp only [proposition, premise, List.append_nil, List.flatMap_singleton']

theorem visitedTargets (module : ASTModule) :
    module.tree.preorder.filterMap ASTNode.target =
      module.inferences.flatMap fun inferenceDefn =>
        inferenceDefn.premiseDefns.flatMap ASTPremiseDefn.visitedTargets ++
          [inferenceDefn.propositionDefn.target] := by
  rw [filterMap_module (fun _ => rfl) (fun _ => rfl) (fun _ => rfl)]
  apply List.flatMap_congr
  intro inferenceDefn _
  rw [filterMap_inference (fun _ => rfl) (fun _ => rfl) (fun _ => rfl)]
  congr 1
  · apply List.flatMap_congr
    intro premise _
    cases premise with
    | inferencePremise defn => rfl
    | inferenceEquality defn =>
        simp only [ASTPremiseDefn.tree, OrderedTree.preorder, OrderedTree.preorderList,
          List.filterMap_cons, ASTNode.target, List.filterMap_append, target_preorder_target,
          List.append_nil]
        rfl
  · simp only [ASTPropositionDefn.tree, OrderedTree.preorder, OrderedTree.preorderList,
      List.filterMap_cons, ASTNode.target, List.append_nil, target_preorder_target]

/-! ## What there is to visit -/

/-- Nothing to visit is below this premise, or next to it, that the visit leaves out. -/
def ASTPremiseDefn.Flat : ASTPremiseDefn → Prop
  | .inferencePremise _ => False
  | .inferenceEquality defn =>
      defn.lhs.allArguments = [] ∧ defn.rhs.allArguments = [] ∧
        ∀ rangeClause, defn.rangeClause = some rangeClause → rangeClause.deductionTarget.allArguments = []

/-- No inference premise, and no arguments of computed targets. -/
def ASTModule.Flat (module : ASTModule) : Prop :=
  ∀ inferenceDefn ∈ module.inferences,
    (∀ premise ∈ inferenceDefn.premiseDefns, premise.Flat) ∧
      inferenceDefn.propositionDefn.target.allArguments = []

section Parts

variable {α β : Type}

theorem append_perm_iff {left left' right right' : List α} (first : left.Sublist left')
    (second : right.Sublist right') :
    (left ++ right).Perm (left' ++ right') ↔ left.Perm left' ∧ right.Perm right' := by
  constructor
  · intro perm
    have lengths := perm.length_eq
    have shorter := first.length_le
    have shorter' := second.length_le
    simp only [List.length_append] at lengths
    exact ⟨.of_eq (first.eq_of_length (by omega)), .of_eq (second.eq_of_length (by omega))⟩
  · intro ⟨perm, perm'⟩
    exact perm.append perm'

theorem flatMap_sublist {items : List α} {part whole : α → List β}
    (each : ∀ item ∈ items, (part item).Sublist (whole item)) :
    (items.flatMap part).Sublist (items.flatMap whole) := by
  induction items with
  | nil => exact .slnil
  | cons head tail ih =>
      rw [List.forall_mem_cons] at each
      rw [List.flatMap_cons, List.flatMap_cons]
      exact each.1.append (ih each.2)

/-- Parts make up the whole only if each of them is whole. -/
theorem flatMap_perm_iff {items : List α} {part whole : α → List β}
    (each : ∀ item ∈ items, (part item).Sublist (whole item)) :
    (items.flatMap part).Perm (items.flatMap whole) ↔
      ∀ item ∈ items, (part item).Perm (whole item) := by
  induction items with
  | nil => simp
  | cons head tail ih =>
      rw [List.forall_mem_cons] at each
      rw [List.flatMap_cons, List.flatMap_cons, append_perm_iff each.1 (flatMap_sublist each.2),
        ih each.2, List.forall_mem_cons]

end Parts

theorem withArguments_perm_iff (target : ASTDeductionTarget) :
    [target].Perm target.withArguments ↔ target.allArguments = [] := by
  constructor
  · intro perm
    have lengths := perm.length_eq
    simpa [ASTDeductionTarget.withArguments] using lengths
  · intro none
    rw [ASTDeductionTarget.withArguments, none]

theorem sublist_withArguments (target : ASTDeductionTarget) :
    [target].Sublist target.withArguments :=
  List.singleton_sublist.mpr List.mem_cons_self

namespace ASTPremiseDefn

theorem documentOrderList_eq_flatMap (premises : List ASTPremiseDefn) :
    documentOrderList premises = premises.flatMap documentOrder := by
  induction premises with
  | nil => rfl
  | cons head tail ih => rw [documentOrderList, ih, List.flatMap_cons]

theorem mem_documentOrder_self (premise : ASTPremiseDefn) : premise ∈ premise.documentOrder := by
  cases premise with
  | inferencePremise defn =>
      obtain ⟨source, target, whileClause⟩ := defn
      cases whileClause <;> simp [documentOrder]
  | inferenceEquality defn => simp [documentOrder]

/-- The targets of a premise and of those nested in it. -/
def deepTargets (premise : ASTPremiseDefn) : List ASTDeductionTarget :=
  premise.documentOrder.flatMap targetsToVisit

theorem visitedTargets_sublist (premise : ASTPremiseDefn) :
    premise.visitedTargets.Sublist premise.deepTargets := by
  cases premise with
  | inferencePremise defn => exact List.nil_sublist _
  | inferenceEquality defn =>
      rw [deepTargets, documentOrder, List.flatMap_singleton, targetsToVisit]
      exact ((sublist_withArguments defn.lhs).append (sublist_withArguments defn.rhs)).trans
        (List.sublist_append_left _ _)

theorem visitedTargets_perm_iff (premise : ASTPremiseDefn) :
    premise.visitedTargets.Perm premise.deepTargets ↔ premise.Flat := by
  cases premise with
  | inferencePremise defn =>
      refine iff_of_false ?_ not_false
      intro perm
      have own : defn.deductionTarget ∈ deepTargets (.inferencePremise defn) :=
        List.mem_flatMap.mpr ⟨_, mem_documentOrder_self _, List.mem_cons_self⟩
      cases perm.mem_iff.mpr own
  | inferenceEquality defn =>
      have operands := append_perm_iff (sublist_withArguments defn.lhs) (sublist_withArguments defn.rhs)
      have bound := append_perm_iff
        ((sublist_withArguments defn.lhs).append (sublist_withArguments defn.rhs))
        (List.nil_sublist ((defn.rangeClause.map (·.deductionTarget.allArguments)).getD []))
      rw [operands, withArguments_perm_iff, withArguments_perm_iff, List.append_nil,
        List.nil_perm] at bound
      rw [deepTargets, documentOrder, List.flatMap_singleton, targetsToVisit, Flat]
      refine bound.trans ?_
      rw [and_assoc]
      cases defn.rangeClause <;> simp

end ASTPremiseDefn

theorem allTargets_eq (inferenceDefn : ASTInferenceDefn) :
    inferenceDefn.allTargets =
      inferenceDefn.premiseDefns.flatMap ASTPremiseDefn.deepTargets ++
        inferenceDefn.propositionDefn.target.withArguments := by
  rw [ASTInferenceDefn.allTargets, ASTPremiseDefn.documentOrderList_eq_flatMap, List.flatMap_assoc]
  rfl

theorem targets_perm_iff (module : ASTModule) :
    (module.tree.preorder.filterMap ASTNode.target).Perm module.allTargets ↔ module.Flat := by
  have premises (inferenceDefn : ASTInferenceDefn) :
      ∀ premise ∈ inferenceDefn.premiseDefns, premise.visitedTargets.Sublist premise.deepTargets :=
    fun premise _ => premise.visitedTargets_sublist
  rw [visitedTargets, ASTModule.allTargets, flatMap_perm_iff]
  · refine forall₂_congr fun inferenceDefn _ => ?_
    rw [allTargets_eq, append_perm_iff (flatMap_sublist (premises inferenceDefn))
      (sublist_withArguments _), flatMap_perm_iff (premises inferenceDefn), withArguments_perm_iff]
    simp only [ASTPremiseDefn.visitedTargets_perm_iff]
  · intro inferenceDefn _
    rw [allTargets_eq]
    exact (flatMap_sublist (premises inferenceDefn)).append (sublist_withArguments _)

/-- Without inference premises there are no while clauses. -/
theorem premises_perm_of_flat {module : ASTModule} (flat : module.Flat) :
    (module.tree.preorder.filterMap ASTNode.premise).Perm module.allPremises := by
  rw [visitedPremises, ASTModule.allPremises]
  refine .of_eq (List.flatMap_congr fun inferenceDefn member => ?_)
  rw [ASTPremiseDefn.documentOrderList_eq_flatMap]
  refine (List.flatMap_singleton' _).symm.trans (List.flatMap_congr fun premise inside => ?_)
  cases premise with
  | inferencePremise defn => exact ((flat inferenceDefn member).1 _ inside).elim
  | inferenceEquality defn => rfl

/-- The events of the walk of a module visit all there is only in flat modules. -/
theorem visitsAll_iff (module : ASTModule) : VisitsAll module module.tree.events ↔ module.Flat := by
  have order := OrderedTree.postorder_perm module.tree
  constructor
  · intro visits
    have entered := visits.targetsEntered
    rw [OrderedTree.entered_events] at entered
    exact (targets_perm_iff module).mp entered
  · intro flat
    have premises := premises_perm_of_flat flat
    have targets := (targets_perm_iff module).mpr flat
    constructor
    case premisesEntered => rwa [OrderedTree.entered_events]
    case targetsEntered => rwa [OrderedTree.entered_events]
    case premisesLeft =>
      rw [OrderedTree.left_events]
      exact (order.filterMap _).trans premises
    case targetsLeft =>
      rw [OrderedTree.left_events]
      exact (order.filterMap _).trans targets

/-! ## Hooks that let the walk go on -/

/-- Hooks that always answer `true`. -/
def ASTVisitor.GoesOn {σ : Type} (visitor : ASTVisitor (StateM σ)) : Prop :=
  ∀ event state, (visitor.call event state).1 = true

/-- Such hooks are called on the whole tree. -/
theorem ASTVisitor.GoesOn.calls {σ : Type} {visitor : ASTVisitor (StateM σ)} (goesOn : visitor.GoesOn)
    (module : ASTModule) (state : σ) :
    ∃ final calls, visitor.recording.visitModule module (state, []) = (true, final, calls) ∧
      calls.map (·.1) = module.tree.events := by
  obtain ⟨calls, answer, final, run, recorded, upTo⟩ :=
    callAll_recording visitor.call module.tree.events state []
  have answered : answer = true := by
    rw [← callAll_true goesOn module.tree.events state, run]
  subst answered
  obtain ⟨rest, split, complete⟩ := upTo.inOrder
  refine ⟨final, calls, ?_, ?_⟩
  · rw [visitModule_eq, recording, call_ofHook]
    exact recorded
  · rw [split, complete rfl, List.append_nil]

/-- The visit calls the hooks of every premise, of every target of a premise and
of every argument once, before and after, exactly in flat modules. -/
theorem visitModule_visitsAll_iff {σ : Type} {visitor : ASTVisitor (StateM σ)} (goesOn : visitor.GoesOn)
    (module : ASTModule) (state : σ) :
    ∃ final calls, visitor.recording.visitModule module (state, []) = (true, final, calls) ∧
      (VisitsAll module (calls.map (·.1)) ↔ module.Flat) := by
  obtain ⟨final, calls, recorded, whole⟩ := goesOn.calls module state
  refine ⟨final, calls, recorded, ?_⟩
  rw [whole]
  exact visitsAll_iff module

/-- The visitor of the base class. -/
def idleVisitor : ASTVisitor (StateM Unit) := {}

theorem idleVisitor_goesOn : idleVisitor.GoesOn := by
  intro event state
  cases event with
  | enter node | leave node => cases node <;> rfl

theorem staticMethodStaticDispatch_visitsAll_iff :
    ∃ final calls, idleVisitor.recording.visitModule (.ofInference staticMethodStaticDispatch) ((), []) =
        (true, final, calls) ∧
      (VisitsAll (.ofInference staticMethodStaticDispatch) (calls.map (·.1)) ↔
        ASTModule.Flat (.ofInference staticMethodStaticDispatch)) :=
  visitModule_visitsAll_iff idleVisitor_goesOn _ ()

/-- The targets of the premises are not visited, nor is the while clause. -/
theorem staticMethodStaticDispatch_not_visitsAll :
    ∃ final calls, idleVisitor.recording.visitModule (.ofInference staticMethodStaticDispatch) ((), []) =
        (true, final, calls) ∧
      ¬ VisitsAll (.ofInference staticMethodStaticDispatch) (calls.map (·.1)) := by
  obtain ⟨final, calls, recorded, whole⟩ :=
    idleVisitor_goesOn.calls (.ofInference staticMethodStaticDispatch) ()
  refine ⟨final, calls, recorded, ?_⟩
  rw [whole, visitsAll_iff]
  intro flat
  exact (flat staticMethodStaticDispatch List.mem_cons_self).1 _ List.mem_cons_self

end Snowlake
