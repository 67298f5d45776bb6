import Snowlake.AstVisitor
import Snowlake.Lib.Traversal

/-! # The order of the hooks

Every `visit` of the visitor repeats one pattern: a hook before the children, the
children, a hook after them, and out at the first `false`.  The nodes a visit
comes to are a tree, and the visit of a module walks it from the left.
-/

namespace Snowlake

open Traversal

/-- What a hook is called on. -/
inductive ASTNode where
  | module (module : ASTModule)
  | inferenceGroup (inferenceGroup : ASTInferenceGroup)
  | environmentDefn (environmentDefn : ASTEnvironmentDefn)
  | inferenceDefn (inferenceDefn : ASTInferenceDefn)
  | globalDecl (globalDecl : ASTGlobalDecl)
  | inferenceArgument (argument : ASTInferenceArgument)
  | inferencePremiseDefn (defn : ASTInferencePremiseDefn)
  | inferenceEqualityDefn (defn : ASTInferenceEqualityDefn)
  | propositionDefn (propositionDefn : ASTPropositionDefn)
  | deductionTarget (deductionTarget : ASTDeductionTarget)
  | deductionTargetSingular (name : StringType)
  | deductionTargetArray (name : StringType) (arraySize : Option IntegerType)
  | deductionTargetComputed (name : StringType) (arguments : List ASTDeductionTarget)

/-! ## The nodes of a module -/

def ASTDeductionTarget.tree : ASTDeductionTarget → OrderedTree ASTNode
  | .singular name => .node (.deductionTarget (.singular name)) [.leaf (.deductionTargetSingular name)]
  | .array name arraySize =>
      .node (.deductionTarget (.array name arraySize)) [.leaf (.deductionTargetArray name arraySize)]
  | .computed name arguments =>
      .node (.deductionTarget (.computed name arguments))
        [.leaf (.deductionTargetComputed name arguments)]

def ASTPropositionDefn.tree (propositionDefn : ASTPropositionDefn) : OrderedTree ASTNode :=
  .node (.propositionDefn propositionDefn) [propositionDefn.target.tree]

/-- A while clause is not visited, nor is the bound of a range clause. -/
def ASTPremiseDefn.tree : ASTPremiseDefn → OrderedTree ASTNode
  | .inferencePremise defn => .leaf (.inferencePremiseDefn defn)
  | .inferenceEquality defn => .node (.inferenceEqualityDefn defn) [defn.lhs.tree, defn.rhs.tree]

def ASTInferenceDefn.tree (inferenceDefn : ASTInferenceDefn) : OrderedTree ASTNode :=
  .node (.inferenceDefn inferenceDefn)
    (inferenceDefn.globalDecls.map (fun globalDecl => .leaf (.globalDecl globalDecl)) ++
      (inferenceDefn.arguments.map (fun argument => .leaf (.inferenceArgument argument)) ++
        (inferenceDefn.premiseDefns.map ASTPremiseDefn.tree ++ [inferenceDefn.propositionDefn.tree])))

def ASTInferenceGroup.tree (inferenceGroup : ASTInferenceGroup) : OrderedTree ASTNode :=
  .node (.inferenceGroup inferenceGroup)
    (inferenceGroup.environmentDefns.map (fun environmentDefn => .leaf (.environmentDefn environmentDefn)) ++
      inferenceGroup.inferenceDefns.map ASTInferenceDefn.tree)

def ASTModule.tree (module : ASTModule) : OrderedTree ASTNode :=
  .node (.module module) (module.inferenceGroups.map ASTInferenceGroup.tree)

namespace ASTVisitor

variable {m : Type → Type} [Monad m]

/-! ## Hooks by their events -/

/-- The hook of an event: `previsit` when a node is entered, `postvisit` when it is left. -/
def call (visitor : ASTVisitor m) : WalkEvent ASTNode → m Bool
  | .enter (.module module) => visitor.previsitModule module
  | .leave (.module module) => visitor.postvisitModule module
  | .enter (.inferenceGroup inferenceGroup) => visitor.previsitInferenceGroup inferenceGroup
  | .leave (.inferenceGroup inferenceGroup) => visitor.postvisitInferenceGroup inferenceGroup
  | .enter (.environmentDefn environmentDefn) => visitor.previsitEnvironmentDefn environmentDefn
  | .leave (.environmentDefn environmentDefn) => visitor.postvisitEnvironmentDefn environmentDefn
  | .enter (.inferenceDefn inferenceDefn) => visitor.previsitInferenceDefn inferenceDefn
  | .leave (.inferenceDefn inferenceDefn) => visitor.postvisitInferenceDefn inferenceDefn
  | .enter (.globalDecl globalDecl) => visitor.previsitGlobalDecl globalDecl
  | .leave (.globalDecl globalDecl) => visitor.postvisitGlobalDecl globalDecl
  | .enter (.inferenceArgument argument) => visitor.previsitInferenceArgument argument
  | .leave (.inferenceArgument argument) => visitor.postvisitInferenceArgument argument
  | .enter (.inferencePremiseDefn defn) => visitor.previsitInferencePremiseDefn defn
  | .leave (.inferencePremiseDefn defn) => visitor.postvisitInferencePremiseDefn defn
  | .enter (.inferenceEqualityDefn defn) => visitor.previsitInferenceEqualityDefn defn
  | .leave (.inferenceEqualityDefn defn) => visitor.postvisitInferenceEqualityDefn defn
  | .enter (.propositionDefn propositionDefn) => visitor.previsitPropositionDefn propositionDefn
  | .leave (.propositionDefn propositionDefn) => visitor.postvisitPropositionDefn propositionDefn
  | .enter (.deductionTarget deductionTarget) => visitor.previsitDeductionTarget deductionTarget
  | .leave (.deductionTarget deductionTarget) => visitor.postvisitDeductionTarget deductionTarget
  | .enter (.deductionTargetSingular name) => visitor.previsitDeductionTargetSingular name
  | .leave (.deductionTargetSingular name) => visitor.postvisitDeductionTargetSingular name
  | .enter (.deductionTargetArray name arraySize) => visitor.previsitDeductionTargetArray name arraySize
  | .leave (.deductionTargetArray name arraySize) => visitor.postvisitDeductionTargetArray name arraySize
  | .enter (.deductionTargetComputed name arguments) =>
      visitor.previsitDeductionTargetComputed name arguments
  | .leave (.deductionTargetComputed name arguments) =>
      visitor.postvisitDeductionTargetComputed name arguments

/-- The visitor all of whose hooks are one function of the event. -/
def ofHook (hook : WalkEvent ASTNode → m Bool) : ASTVisitor m where
  previsitModule module := hook (.enter (.module module))
  postvisitModule module := hook (.leave (.module module))
  previsitInferenceGroup inferenceGroup := hook (.enter (.inferenceGroup inferenceGroup))
  postvisitInferenceGroup inferenceGroup := hook (.leave (.inferenceGroup inferenceGroup))
  previsitEnvironmentDefn environmentDefn := hook (.enter (.environmentDefn environmentDefn))
  postvisitEnvironmentDefn environmentDefn := hook (.leave (.environmentDefn environmentDefn))
  previsitInferenceDefn inferenceDefn := hook (.enter (.inferenceDefn inferenceDefn))
  postvisitInferenceDefn inferenceDefn := hook (.leave (.inferenceDefn inferenceDefn))
  previsitGlobalDecl globalDecl := hook (.enter (.globalDecl globalDecl))
  postvisitGlobalDecl globalDecl := hook (.leave (.globalDecl globalDecl))
  previsitInferenceArgument argument := hook (.enter (.inferenceArgument argument))
  postvisitInferenceArgument argument := hook (.leave (.inferenceArgument argument))
  previsitInferencePremiseDefn defn := hook (.enter (.inferencePremiseDefn defn))
  postvisitInferencePremiseDefn defn := hook (.leave (.inferencePremiseDefn defn))
  previsitInferenceEqualityDefn defn := hook (.enter (.inferenceEqualityDefn defn))
  postvisitInferenceEqualityDefn defn := hook (.leave (.inferenceEqualityDefn defn))
  previsitPropositionDefn propositionDefn := hook (.enter (.propositionDefn propositionDefn))
  postvisitPropositionDefn propositionDefn := hook (.leave (.propositionDefn propositionDefn))
  previsitDeductionTarget deductionTarget := hook (.enter (.deductionTarget deductionTarget))
  postvisitDeductionTarget deductionTarget := hook (.leave (.deductionTarget deductionTarget))
  previsitDeductionTargetSingular name := hook (.enter (.deductionTargetSingular name))
  postvisitDeductionTargetSingular name := hook (.leave (.deductionTargetSingular name))
  previsitDeductionTargetArray name arraySize := hook (.enter (.deductionTargetArray name arraySize))
  postvisitDeductionTargetArray name arraySize := hook (.leave (.deductionTargetArray name arraySize))
  previsitDeductionTargetComputed name arguments :=
    hook (.enter (.deductionTargetComputed name arguments))
  postvisitDeductionTargetComputed name arguments :=
    hook (.leave (.deductionTargetComputed name arguments))

@[simp] theorem call_ofHook (hook : WalkEvent ASTNode → m Bool) : (ofHook hook).call = hook := by
  funext event
  cases event with
  | enter node | leave node => cases node <;> rfl

/-- The visitor that also notes each call of a hook with its answer.  What a hook
visits on its own account is part of that hook. -/
def recording {σ : Type} (visitor : ASTVisitor (StateM σ)) :
    ASTVisitor (StateM (σ × List (WalkEvent ASTNode × Bool))) :=
  ofHook (Traversal.recording visitor.call)

/-! ## A visit is a walk -/

variable [LawfulMonad m] (visitor : ASTVisitor m)

theorem callAll_node (hook : WalkEvent ASTNode → m Bool) (node : ASTNode)
    (children : List (OrderedTree ASTNode)) :
    callAll hook (OrderedTree.node node children).events =
      verify (hook (.enter node)) (verify (callAll hook (OrderedTree.eventsList children))
        (verify (hook (.leave node)) (pure true))) := by
  rw [OrderedTree.events, callAll, callAll_append]
  rfl

theorem callAll_leaf (hook : WalkEvent ASTNode → m Bool) (node : ASTNode) :
    callAll hook (OrderedTree.leaf node).events =
      verify (hook (.enter node)) (verify (hook (.leave node)) (pure true)) := by
  rw [OrderedTree.leaf, callAll_node, OrderedTree.eventsList, callAll, verify_pure_true]

theorem callAll_cons (hook : WalkEvent ASTNode → m Bool) (head : OrderedTree ASTNode)
    (tail : List (OrderedTree ASTNode)) :
    callAll hook (OrderedTree.eventsList (head :: tail)) =
      verify (callAll hook head.events) (callAll hook (OrderedTree.eventsList tail)) := by
  rw [OrderedTree.eventsList, callAll_append]
  rfl

theorem callAll_singleton (hook : WalkEvent ASTNode → m Bool) (tree : OrderedTree ASTNode) :
    callAll hook (OrderedTree.eventsList [tree]) = callAll hook tree.events := by
  rw [callAll_cons, OrderedTree.eventsList, callAll, verify_then_true]

theorem callAll_append_trees (hook : WalkEvent ASTNode → m Bool)
    (first second : List (OrderedTree ASTNode)) :
    callAll hook (OrderedTree.eventsList (first ++ second)) =
      verify (callAll hook (OrderedTree.eventsList first))
        (callAll hook (OrderedTree.eventsList second)) := by
  rw [OrderedTree.eventsList_append, callAll_append]
  rfl

/-- A loop over nodes walks their trees. -/
theorem visitAll_eq {α : Type} {visit : α → m Bool} {tree : α → OrderedTree ASTNode}
    (each : ∀ item, visit item = callAll visitor.call (tree item).events) (items : List α) :
    visitAll visit items = callAll visitor.call (OrderedTree.eventsList (items.map tree)) := by
  induction items with
  | nil => rfl
  | cons head tail ih => rw [List.map_cons, callAll_cons, visitAll, each head, ih]

theorem visitDeductionTarget_eq (target : ASTDeductionTarget) :
    visitor.visitDeductionTarget target = callAll visitor.call target.tree.events := by
  cases target <;>
    rw [ASTDeductionTarget.tree, callAll_node, callAll_singleton, callAll_leaf] <;> rfl

theorem visitPropositionDefn_eq (propositionDefn : ASTPropositionDefn) :
    visitor.visitPropositionDefn propositionDefn =
      callAll visitor.call propositionDefn.tree.events := by
  rw [ASTPropositionDefn.tree, callAll_node, callAll_singleton, ← visitDeductionTarget_eq]
  rfl

theorem visitPremiseDefn_eq (premise : ASTPremiseDefn) :
    visitor.visitPremiseDefn premise = callAll visitor.call premise.tree.events := by
  cases premise with
  | inferencePremise defn =>
      rw [visitPremiseDefn, verify_then_true, ASTPremiseDefn.tree, callAll_leaf]
      rfl
  | inferenceEquality defn =>
      rw [visitPremiseDefn, verify_then_true, ASTPremiseDefn.tree, callAll_node, callAll_cons,
        callAll_singleton, ← visitDeductionTarget_eq, ← visitDeductionTarget_eq, verify_verify]
      rfl

theorem visitInferenceDefn_eq (inferenceDefn : ASTInferenceDefn) :
    visitor.visitInferenceDefn inferenceDefn = callAll visitor.call inferenceDefn.tree.events := by
  have globalDecls := visitor.visitAll_eq (fun globalDecl =>
    (callAll_leaf visitor.call (.globalDecl globalDecl)).symm) inferenceDefn.globalDecls
  have arguments := visitor.visitAll_eq (fun argument =>
    (callAll_leaf visitor.call (.inferenceArgument argument)).symm) inferenceDefn.arguments
  rw [ASTInferenceDefn.tree, callAll_node, callAll_append_trees, callAll_append_trees,
    callAll_append_trees, callAll_singleton, ← globalDecls, ← arguments,
    ← visitor.visitAll_eq visitor.visitPremiseDefn_eq, ← visitPropositionDefn_eq]
  simp only [verify_verify]
  rfl

theorem visitInferenceGroup_eq (inferenceGroup : ASTInferenceGroup) :
    visitor.visitInferenceGroup inferenceGroup =
      callAll visitor.call inferenceGroup.tree.events := by
  have environmentDefns := visitor.visitAll_eq (fun environmentDefn =>
    (callAll_leaf visitor.call (.environmentDefn environmentDefn)).symm) inferenceGroup.environmentDefns
  rw [ASTInferenceGroup.tree, callAll_node, callAll_append_trees, ← environmentDefns,
    ← visitor.visitAll_eq visitor.visitInferenceDefn_eq, verify_verify]
  rfl

/-- The visit of a module calls the hooks of its tree in order. -/
theorem visitModule_eq (module : ASTModule) :
    visitor.visitModule module = callAll visitor.call module.tree.events := by
  rw [ASTModule.tree, callAll_node, ← visitor.visitAll_eq visitor.visitInferenceGroup_eq]
  rfl

end ASTVisitor

/-- The hooks called by the visit of a module, whatever they do and answer, are
those of the walk of its tree up to the first that answers `false`. -/
theorem visitModule_calls {σ : Type} (visitor : ASTVisitor (StateM σ)) (module : ASTModule) (state : σ) :
    Bracketed.WellBracketed WalkEvent.role module.tree.events ∧
      module.tree.events.filterMap WalkEvent.entered = module.tree.preorder ∧
      module.tree.events.filterMap WalkEvent.left = module.tree.postorder ∧
      ∃ calls answer final, visitor.visitModule module state = (answer, final) ∧
        visitor.recording.visitModule module (state, []) = (answer, final, calls) ∧
        UpToFailure module.tree.events calls answer := by
  obtain ⟨calls, answer, final, run, recorded, upTo⟩ :=
    callAll_recording visitor.call module.tree.events state []
  have walk := visitor.recording.visitModule_eq module
  rw [ASTVisitor.recording, ASTVisitor.call_ofHook] at walk
  refine ⟨OrderedTree.events_wellBracketed _, OrderedTree.entered_events _, OrderedTree.left_events _,
    calls, answer, final, ?_, ?_, upTo⟩
  · rw [visitor.visitModule_eq]
    exact run
  · rw [ASTVisitor.recording, walk]
    exact recorded

end Snowlake
