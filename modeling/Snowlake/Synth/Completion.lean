import Snowlake.Synth.Files

/-! # Which runs complete

The analyser asks every group for the same four environment fields.  The
synthesizer looks up two more, for the fixture of a while clause.  A run over an
accepted module therefore completes exactly if each group whose inferences use a
while clause also defines both fixture methods; otherwise `envDefnMap.at` throws.
-/

namespace Snowlake

open Emitted

namespace Synthesizer

/-- From every context that serves and has no value for `missing`, `act` throws. -/
def Throws (names : Names) (missing : StringType) {α : Type} (act : Synth α) (indentLvl : Nat)
    (before : Numbering) : Prop :=
  ∀ context : SynthesisContext, context.Serves names False indentLvl →
    context.envDefnMap missing = none → context.numbering = before →
      ∃ key, act.run context = .error (.outOfRange key)

namespace Throws

variable {names : Names} {missing : StringType} {α β : Type} {indentLvl : Nat}
  {before middle : Numbering} {text : String}

theorem here {act : Synth α} (next : α → Synth β) (throws : Throws names missing act indentLvl before) :
    Throws names missing (act >>= next) indentLvl before := by
  intro context serves lacks counted
  obtain ⟨key, thrown⟩ := throws context serves lacks counted
  exact ⟨key, run_bind_of_error thrown⟩

theorem later {act : Synth α} {next : α → Synth β} {result : α}
    (emits : Emits names False act indentLvl before text middle result)
    (throws : Throws names missing (next result) indentLvl middle) :
    Throws names missing (act >>= next) indentLvl before := by
  intro context serves lacks counted
  rw [run_bind_of_ok (emits context serves counted)]
  exact throws _ (serves.extend text middle) lacks (SynthesisContext.extend_numbering ..)

/-- The key looked up is the missing one. -/
theorem lookup (next : StringType → Synth β) :
    Throws names missing (envDefnAt missing >>= next) indentLvl before := by
  intro context _ lacks _
  exact ⟨missing, run_bind_of_error (envDefnAt_run_of_none lacks)⟩

/-- A lookup throws or is followed by what throws. -/
theorem lookup_then {key : StringType} {next : StringType → Synth β}
    (throws : ∀ value, Throws names missing (next value) indentLvl before) :
    Throws names missing (envDefnAt key >>= next) indentLvl before := by
  intro context serves lacks counted
  cases found : context.envDefnMap key with
  | none => exact ⟨key, run_bind_of_error (envDefnAt_run_of_none found)⟩
  | some value =>
      rw [run_bind_of_ok (envDefnAt_run_of_some found)]
      exact throws value context serves lacks counted

end Throws

/-- A key of the fixture of a while clause. -/
def IsFixtureKey (key : StringType) : Prop :=
  key = envnDefnKeyForTypeAnnotationSetupMethod ∨ key = envnDefnKeyForTypeAnnotationTeardownMethod

theorem exists_missing {group : ASTInferenceGroup} (lacks : ¬ group.DefinesFixtures) :
    ∃ missing, IsFixtureKey missing ∧ group.envDefnMap missing = none := by
  by_cases setup : envnDefnKeyForTypeAnnotationSetupMethod ∈ group.fields
  · have teardown : envnDefnKeyForTypeAnnotationTeardownMethod ∉ group.fields := fun defined =>
      lacks ⟨setup, defined⟩
    exact ⟨_, .inr rfl, ASTInferenceGroup.envDefnMap_of_notMem teardown⟩
  · exact ⟨_, .inl rfl, ASTInferenceGroup.envDefnMap_of_notMem setup⟩

section Premises

variable (opts : Options) (names : Names) {missing : StringType} {indentLvl : Nat}

theorem throws_whilePremise (fixtureKey : IsFixtureKey missing) (source : ASTIdentifiable) (target : ASTDeductionTarget)
    {body : Synth Unit} {before : Numbering}
    (inside : Throws names missing body indentLvl before ∨
      ∃ text after, Emits names False body indentLvl before text after ()) :
    Throws names missing (synthesizeInferencePremiseDefnWithWhileClause source target body)
      indentLvl before := by
  refine Throws.later (Emits.writeCpp _) ?_
  rcases fixtureKey with rfl | rfl
  · exact Throws.lookup _
  · refine Throws.lookup_then fun setupMethod => Throws.later Emits.indentation <|
      Throws.later (Emits.writeCpp _) <|
      Throws.later (emits_fixture names False source target setupMethod before) <|
      Throws.later (Emits.writeCpp _) ?_
    rcases inside with throws | ⟨text, after, emits⟩
    · exact Throws.here _ throws
    · exact Throws.later emits (Throws.lookup _)

mutual
/-- A visit of a while premise throws if a fixture key is missing. -/
theorem throws_premise (fixtureKey : IsFixtureKey missing) (room : indentLvl + 1 < sizeMax)
    (premise : ASTPremiseDefn) (uses : premise.hasWhileClause = true) (numbering : Numbering) :
    Throws names missing (visitNestedPremiseDefn opts premise) indentLvl numbering := by
  match premise with
  | .inferencePremise ⟨source, target, some body⟩ =>
      have inside := throws_or_emits_whileClause fixtureKey room body numbering
      exact Throws.here _ <| Throws.later (emits_annotationLines opts names False numbering) <|
        Throws.here _ <| throws_whilePremise names fixtureKey source target inside

/-- The body of a while clause throws, or is emitted because nothing in it is a
while premise. -/
theorem throws_or_emits_whileClause (fixtureKey : IsFixtureKey missing)
    (room : indentLvl + 1 < sizeMax) (premises : List ASTPremiseDefn) (numbering : Numbering) :
    Throws names missing (visitWhileClause opts premises) indentLvl numbering ∨
      ∃ text after, Emits names False (visitWhileClause opts premises) indentLvl numbering text after () := by
  match premises with
  | [] => exact .inr ⟨"", numbering, Emits.pure ()⟩
  | head :: tail =>
      by_cases uses : head.hasWhileClause = true
      · exact .inl (Throws.here _ (throws_premise fixtureKey room head uses numbering))
      · have first := emits_premise opts names False room head (fun used => uses used) numbering
        rcases throws_or_emits_whileClause fixtureKey room tail (advance head numbering) with
          throws | ⟨text, after, emits⟩
        · exact .inl (Throws.later first throws)
        · exact .inr ⟨_, after, first.bind emits⟩
end

theorem throws_premises (fixtureKey : IsFixtureKey missing) (room : indentLvl + 1 < sizeMax)
    (premises : List ASTPremiseDefn) (uses : ∃ premise ∈ premises, premise.hasWhileClause = true) (numbering : Numbering) :
    Throws names missing (ASTVisitor.visitAll (visitNestedPremiseDefn opts) premises) indentLvl
      numbering := by
  induction premises generalizing numbering with
  | nil => simp at uses
  | cons head tail ih =>
      by_cases used : head.hasWhileClause = true
      · exact Throws.here _ (throws_premise opts names fixtureKey room head used numbering)
      · have first := emits_premise opts names False room head (fun holds => used holds) numbering
        exact Throws.later first (ih (by simpa [used] using uses) (advance head numbering))

end Premises

/-! ## The walk -/

section Walk

variable (opts : Options) (opens : String → Bool) {names : Names} {missing : StringType}
  {context : SynthesisContext}

theorem visitInferenceDefn_throws (fixtureKey : IsFixtureKey missing) (defn : ASTInferenceDefn)
    (serves : context.Serves names False 0)
    (header : context.headerFileIndentLvl = 0) (lacks : context.envDefnMap missing = none)
    (uses : ∃ premise ∈ defn.premiseDefns, premise.hasWhileClause = true) :
    ∃ key, ((visitor opts opens).visitInferenceDefn defn).run context = .error (.outOfRange key) := by
  have room : 1 + 1 < sizeMax := by decide
  have entered := previsitInferenceDefn_run opts defn header serves.indentLvl
  obtain ⟨key, thrown⟩ := throws_premises opts names fixtureKey room defn.premiseDefns uses
    ⟨context.nameId, context.numPremisesProcessed⟩ { context with
      headerFileOfs := context.headerFileOfs.write (declarationText opts context.typeCls defn)
      cppFileOfs := context.cppFileOfs.write
        ("\n" ++ (renderInferenceDefinitionMethodAnnotationComment opts defn.name 0 ++
          signatureText opts context.typeCls context.clsName defn))
      cppFileIndentLvl := 1 }
    ⟨serves.typeCls, serves.typeClass, serves.proofMethod, serves.typeCmpMethod,
      serves.setupMethod, serves.teardownMethod, rfl⟩ lacks rfl
  rw [visitInferenceDefn_eq, run_verify_of_ok entered]
  exact ⟨key, run_bind_of_error thrown⟩

theorem visitInferenceDefns_throws (fixtureKey : IsFixtureKey missing)
    (defns : List ASTInferenceDefn) (serves : context.Serves names False 0) (header : context.headerFileIndentLvl = 0)
    (fresh : context.numPremisesProcessed = 0) (lacks : context.envDefnMap missing = none)
    (uses : ∃ defn ∈ defns, ∃ premise ∈ defn.premiseDefns, premise.hasWhileClause = true) :
    ∃ key, (ASTVisitor.visitAll (visitor opts opens).visitInferenceDefn defns).run context =
      .error (.outOfRange key) := by
  induction defns generalizing context with
  | nil => simp at uses
  | cons defn rest ih =>
      by_cases used : ∃ premise ∈ defn.premiseDefns, premise.hasWhileClause = true
      · obtain ⟨key, thrown⟩ := visitInferenceDefn_throws opts opens fixtureKey defn serves header
          lacks used
        exact ⟨key, run_bind_of_error thrown⟩
      · have first := visitInferenceDefn_run opts opens defn serves header fresh
          fun premise member holds => used ⟨premise, member, holds⟩
        have served : { context with
            headerFileOfs := context.headerFileOfs.write (declarationText opts names.typeCls defn)
            cppFileOfs := context.cppFileOfs.write
              (definitionText opts names context.clsName defn context.nameId)
            nameId := nameIdAfter defn context.nameId }.Serves names False 0 :=
          ⟨serves.typeCls, serves.typeClass, serves.proofMethod, serves.typeCmpMethod,
            serves.setupMethod, serves.teardownMethod, serves.indentLvl⟩
        rw [ASTVisitor.visitAll, run_verify_of_ok first]
        refine ih served header fresh lacks ?_
        obtain ⟨defn', member, found⟩ := uses
        rcases List.mem_cons.mp member with rfl | later
        · exact absurd found used
        · exact ⟨defn', later, found⟩

end Walk

end Synthesizer

namespace ASTInferenceGroup

/-- Some premise of the group's inferences, at any depth, has a while clause. -/
def UsesWhileClause (group : ASTInferenceGroup) : Prop :=
  ∃ defn ∈ group.inferenceDefns, ∃ premise ∈ defn.allPremises, premise.hasWhileClause = true

instance (group : ASTInferenceGroup) : Decidable group.UsesWhileClause :=
  inferInstanceAs (Decidable (∃ defn ∈ group.inferenceDefns, _))

/-- A premise that a while clause nests has a premise with a while clause above it. -/
theorem exists_whileClause_iff (premises : List ASTPremiseDefn) :
    (∃ premise ∈ ASTPremiseDefn.documentOrderList premises, premise.hasWhileClause = true) ↔
      ∃ premise ∈ premises, premise.hasWhileClause = true := by
  induction premises with
  | nil => simp [ASTPremiseDefn.documentOrderList]
  | cons head tail ih =>
      rw [ASTPremiseDefn.documentOrderList]
      simp only [List.mem_append, or_and_right, exists_or, ih, List.exists_mem_cons_iff]
      refine or_congr_left ?_
      rcases head with ⟨source, target, _ | body⟩ | defn
      · simp [ASTPremiseDefn.documentOrder]
      · simp [ASTPremiseDefn.documentOrder, ASTPremiseDefn.hasWhileClause]
      · simp [ASTPremiseDefn.documentOrder]

theorem usesWhileClause_iff (group : ASTInferenceGroup) : group.UsesWhileClause ↔
    ∃ defn ∈ group.inferenceDefns, ∃ premise ∈ defn.premiseDefns, premise.hasWhileClause = true := by
  simp only [UsesWhileClause, ASTInferenceDefn.allPremises, exists_whileClause_iff]

end ASTInferenceGroup

namespace Synthesizer

section Walk

variable (opts : Options) (opens : String → Bool) {context : SynthesisContext}

theorem visitInferenceGroup_throws {group : ASTInferenceGroup} {strict : Bool}
    (wellFormed : group.WellFormed strict) (idle : context.Idle)
    (headerOpens : opens (headerFilepath opts group) = true)
    (cppOpens : opens (cppFilepath opts group) = true) (uses : group.UsesWhileClause)
    (lacks : ¬ group.DefinesFixtures) :
    ∃ key, ((visitor opts opens).visitInferenceGroup group).run context = .error (.outOfRange key) := by
  obtain ⟨missing, fixtureKey, absent⟩ := exists_missing lacks
  have bare : (openGroup opts context group).Serves group.names False 0 :=
    (openGroup_serves opts wellFormed idle).weaken False.elim
  have environment : ∀ defn, (visitor opts opens).visitEnvironmentDefn defn = pure true := fun _ => by
    simp [ASTVisitor.visitEnvironmentDefn, visitor]
  have begun : ((visitor opts opens).previsitInferenceGroup group).run context =
      .ok (true, openGroup opts context group) :=
    previsitInferenceGroup_run opts opens wellFormed idle headerOpens cppOpens
  obtain ⟨key, thrown⟩ := visitInferenceDefns_throws opts opens fixtureKey group.inferenceDefns bare
    idle.headerFileIndentLvl idle.numPremisesProcessed
    absent (group.usesWhileClause_iff.mp uses)
  rw [ASTVisitor.visitInferenceGroup, run_verify_of_ok begun,
    ASTVisitor.visitAll_pure_true _ _ fun defn _ => environment defn, ASTVisitor.verify_pure_true]
  exact ⟨key, run_bind_of_error thrown⟩

theorem visitInferenceGroups_throws (groups : List ASTInferenceGroup) {strict : Bool}
    (wellFormed : ∀ group ∈ groups, group.WellFormed strict) (idle : context.Idle)
    (allOpen : ∀ path, opens path = true)
    (uses : ∃ group ∈ groups, group.UsesWhileClause ∧ ¬ group.DefinesFixtures) :
    ∃ key, (ASTVisitor.visitAll (visitor opts opens).visitInferenceGroup groups).run context =
      .error (.outOfRange key) := by
  induction groups generalizing context with
  | nil => simp at uses
  | cons group rest ih =>
      have wellFormedGroup := wellFormed group (by simp)
      by_cases bad : group.UsesWhileClause ∧ ¬ group.DefinesFixtures
      · obtain ⟨key, thrown⟩ := visitInferenceGroup_throws opts opens wellFormedGroup idle
          (allOpen _) (allOpen _) bad.1 bad.2
        exact ⟨key, run_bind_of_error thrown⟩
      · have first := visitInferenceGroup_run opts opens wellFormedGroup idle (allOpen _) (allOpen _)
          fun defn member premise inside holds => by
            by_contra lacks
            exact bad ⟨group.usesWhileClause_iff.mpr ⟨defn, member, premise, inside, holds⟩, lacks⟩
        rw [ASTVisitor.visitAll, run_verify_of_ok first]
        refine ih (fun group' member => wellFormed group' (List.mem_cons_of_mem _ member))
          (synthesizeGroup_idle opts idle group) ?_
        obtain ⟨group', member, found⟩ := uses
        rcases List.mem_cons.mp member with rfl | later
        · exact absurd found bad
        · exact ⟨group', later, found⟩

theorem run_of_uncovered {module : ASTModule} {strict : Bool} (wellFormed : module.WellFormed strict)
    (idle : context.Idle) (allOpen : ∀ path, opens path = true)
    (uses : ∃ group ∈ module.inferenceGroups, group.UsesWhileClause ∧ ¬ group.DefinesFixtures) :
    ∃ key, (run opts opens module).run context = .error (.outOfRange key) := by
  obtain ⟨key, thrown⟩ := visitInferenceGroups_throws opts opens module.inferenceGroups
    wellFormed.groups (writeErrorCodeFiles_idle opts idle) allOpen uses
  rw [← visitModule_eq] at thrown
  rw [run, run_bind_of_ok (initializeAndSynthesizeErrorCodeFiles_run opts opens allOpen), if_pos rfl]
  exact ⟨key, run_bind_of_error thrown⟩

end Walk

/-- Over an accepted module, with every file opening, the synthesizer returns
true exactly if each group that uses a while clause defines both fixture methods. -/
theorem run_completes_iff (semaOpts : SemanticAnalyzer.Options) (opts : Options)
    (opens : String → Bool) (incrementalInt : UInt64) (files : String → Option String)
    (module : ASTModule) (accepted : (SemanticAnalyzer.run semaOpts module).value = true)
    (allOpen : ∀ path, opens path = true) :
    (∃ final, (run opts opens module).run { incrementalInt := incrementalInt, files := files } =
        .ok (true, final)) ↔
      ∀ group ∈ module.inferenceGroups, group.UsesWhileClause → group.DefinesFixtures := by
  have wellFormed := (SemanticAnalyzer.visitModule_iff semaOpts.policy module).mp accepted
  have idle := SynthesisContext.idle_initial incrementalInt files
  constructor
  · rintro ⟨final, completed⟩ group member uses
    by_contra lacks
    obtain ⟨key, thrown⟩ := run_of_uncovered opts opens wellFormed idle allOpen ⟨group, member, uses, lacks⟩
    rw [completed] at thrown
    cases thrown
  · intro covered
    obtain ⟨final, completed, -⟩ := run_of_covered opts opens wellFormed idle allOpen
      fun group member defn inside premise nested holds =>
        covered group member (group.usesWhileClause_iff.mpr ⟨defn, inside, premise, nested, holds⟩)
    exact ⟨final, completed⟩

/-! ## The tutorial's example -/

/-- The group of `docs/source/tutorial.rst`, with environment definitions of choice. -/
def tutorialModule (environmentDefns : List ASTEnvironmentDefn) : ASTModule where
  inferenceGroups := [{
    name := "SampleProject"
    environmentDefns := environmentDefns
    inferenceDefns := [staticMethodStaticDispatch] }]

/-- The environment definitions of the tutorial. -/
def tutorialEnvironment : List ASTEnvironmentDefn :=
  [⟨"ClassName", "SampleProjectTypeChecker"⟩, ⟨"TypeClass", "TypeCls"⟩,
    ⟨"ProofMethod", "proveType"⟩, ⟨"TypeCmpMethod", "cmpType"⟩]

/-- The tutorial's example is accepted, and synthesizing it throws. -/
theorem tutorialModule_throws :
    (SemanticAnalyzer.run ⟨true, true, false⟩ (tutorialModule tutorialEnvironment)).value = true ∧
      ∃ key, (run ⟨false, false, "SampleProject.sl", "./"⟩ (fun _ => true)
        (tutorialModule tutorialEnvironment)).run {} = .error (.outOfRange key) :=
  ⟨by decide, run_of_uncovered _ _
    ((SemanticAnalyzer.visitModule_iff ⟨true, true⟩ _).mp (by decide)) ⟨rfl, rfl, rfl, rfl, rfl⟩
    (fun _ => rfl) (by decide)⟩

/-- With the two fixture methods the tutorial's example is synthesized. -/
theorem tutorialModule_completes : ∃ final,
    (run ⟨false, false, "SampleProject.sl", "./"⟩ (fun _ => true)
      (tutorialModule (tutorialEnvironment ++ [⟨"TypeAnnotationSetupMethod", "setup"⟩,
        ⟨"TypeAnnotationTeardownMethod", "teardown"⟩]))).run {} = .ok (true, final) :=
  (run_completes_iff ⟨true, true, false⟩ _ _ 1 (fun _ => none) _ (by decide) fun _ => rfl).mpr (by decide)

end Synthesizer

end Snowlake
