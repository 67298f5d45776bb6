import Snowlake.Lib.Writes
import Snowlake.Synth.Completion

/-! # What a run leaves in the output files

A run that returns true wrote the files of every group, one group after the
other.  The name of a group's files comes from its `ClassName`, whereas the
analyser asks for distinct names of groups.  No text is lost exactly if the
`ClassName` values are distinct and differ from the name of the error code files.
-/

namespace Snowlake

open Emitted Writes

namespace Synthesizer

variable (opts : Options)

/-- The files of a group with their texts, in the order they are opened. -/
def groupFiles (group : ASTInferenceGroup) (nameId : UInt32) : List (String × Option String) :=
  [(headerFilepath opts group, some (headerText opts group)),
    (cppFilepath opts group, some (cppText opts group nameId))]

def groupsFiles : List ASTInferenceGroup → UInt32 → List (String × Option String)
  | [], _ => []
  | group :: rest, nameId =>
      groupFiles opts group nameId ++ groupsFiles rest (nameIdAfterAll group.inferenceDefns nameId)

/-- The counter of temporaries after some groups. -/
def nameIdAfterGroups : List ASTInferenceGroup → UInt32 → UInt32
  | [], nameId => nameId
  | group :: rest, nameId => nameIdAfterGroups rest (nameIdAfterAll group.inferenceDefns nameId)

/-- The paths of the two files of a name. -/
def filepaths (name : String) : List String :=
  [outputFilepath opts (name ++ ".h"), outputFilepath opts (name ++ ".cpp")]

/-- The names the output files of a module have, those of the error codes first. -/
def fileNames (module : ASTModule) : List String :=
  errorCodeHeaderFilenameBase :: module.inferenceGroups.map (·.clsName)

theorem groupsFiles_append (first second : List ASTInferenceGroup) (nameId : UInt32) :
    groupsFiles opts (first ++ second) nameId =
      groupsFiles opts first nameId ++ groupsFiles opts second (nameIdAfterGroups first nameId) := by
  induction first generalizing nameId with
  | nil => rfl
  | cons group rest ih => simp only [List.cons_append, groupsFiles, nameIdAfterGroups, ih, List.append_assoc]

theorem groupsFiles_paths (groups : List ASTInferenceGroup) (nameId : UInt32) :
    (groupsFiles opts groups nameId).map (·.1) =
      (groups.map (·.clsName)).flatMap (filepaths opts) := by
  induction groups generalizing nameId with
  | nil => rfl
  | cons group rest ih =>
      rw [groupsFiles, List.map_append, ih, List.map_cons, List.flatMap_cons]
      rfl

theorem synthesizeGroups_files (groups : List ASTInferenceGroup) (context : SynthesisContext) :
    (groups.foldl (synthesizeGroup opts) context).files =
      writeAll context.files (groupsFiles opts groups context.nameId) := by
  induction groups generalizing context with
  | nil => rfl
  | cons group rest ih =>
      rw [List.foldl_cons, ih, groupsFiles, writeAll_append]
      rfl

/-! ## Runs that return true -/

section Inversion

variable (opens : String → Bool) {context final : SynthesisContext}

theorem exists_of_run_bind {α β : Type} {act : Synth α} {next : α → Synth β} {result : β}
    (ran : (act >>= next).run context = .ok (result, final)) :
    ∃ value middle, act.run context = .ok (value, middle) ∧
      (next value).run middle = .ok (result, final) := by
  rw [StateT.run_bind] at ran
  cases first : act.run context with
  | error fault =>
      rw [first] at ran
      cases ran
  | ok answer =>
      rw [first] at ran
      exact ⟨answer.1, answer.2, rfl, ran⟩

theorem openFile_of_not_opens {ofs : OfStream} {path : String} (canNotOpen : opens path = false) :
    ofs.openFile opens path = { ofs with good := false } := by
  rw [OfStream.openFile, canNotOpen, Bool.and_false]
  rfl

theorem openHeaderFile_run_of_not_opens (context : SynthesisContext) {path : String}
    (canNotOpen : opens path = false) :
    ∃ context', (openHeaderFile opens path).run context = .ok (false, context') := by
  have opened : (modify fun context : SynthesisContext => { context with
      headerFileOfs := context.headerFileOfs.openFile opens path } : Synth Unit).run context =
      .ok ((), { context with headerFileOfs := { context.headerFileOfs with good := false } }) := by
    rw [← openFile_of_not_opens opens canNotOpen]
    rfl
  rw [openHeaderFile, run_bind_of_ok opened]
  exact ⟨_, rfl⟩

theorem openCppFile_run_of_not_opens (context : SynthesisContext) {path : String}
    (canNotOpen : opens path = false) :
    ∃ context', (openCppFile opens path).run context = .ok (false, context') := by
  have opened : (modify fun context : SynthesisContext => { context with
      cppFileOfs := context.cppFileOfs.openFile opens path } : Synth Unit).run context =
      .ok ((), { context with cppFileOfs := { context.cppFileOfs with good := false } }) := by
    rw [← openFile_of_not_opens opens canNotOpen]
    rfl
  rw [openCppFile, run_bind_of_ok opened]
  exact ⟨_, rfl⟩

/-- A group one of whose files does not open is given up. -/
theorem previsitInferenceGroup_run_of_not_opens {group : ASTInferenceGroup} {strict : Bool}
    (wellFormed : group.WellFormed strict) (idle : context.Idle)
    (closed : ¬ (opens (headerFilepath opts group) = true ∧ opens (cppFilepath opts group) = true)) :
    ∃ context', (previsitInferenceGroup opts opens group).run context = .ok (false, context') := by
  have clsName : (getClassNameFromEnvDefn group.envDefnMap).run context =
      .ok (group.clsName, context) := by
    rw [getClassNameFromEnvDefn, ASTInferenceGroup.envDefnMap_of_mem wellFormed.className]
    rfl
  have typeCls : (atKey group.envDefnMap envnDefnKeyForTypeClass).run context =
      .ok (group.names.typeCls, context) := by
    rw [atKey, ASTInferenceGroup.envDefnMap_of_mem wellFormed.typeClass]
    rfl
  rw [previsitInferenceGroup, run_bind_of_ok clsName, run_bind_of_ok typeCls]
  cases headerOpens : opens (headerFilepath opts group) with
  | false =>
      obtain ⟨context', failed⟩ := openHeaderFile_run_of_not_opens opens context headerOpens
      exact ⟨context', by rw [run_bind_of_ok failed]; rfl⟩
  | true =>
      have cppFails : opens (cppFilepath opts group) = false := by
        cases cppOpens : opens (cppFilepath opts group) with
        | false => rfl
        | true => exact absurd ⟨headerOpens, cppOpens⟩ closed
      have header := openHeaderFile_run opens context idle.header headerOpens
      obtain ⟨context', failed⟩ := openCppFile_run_of_not_opens opens { context with
        headerFileOfs := ⟨some (headerFilepath opts group), true, ""⟩
        files := Function.update context.files (headerFilepath opts group) (some "") } cppFails
      exact ⟨context', by rw [run_bind_of_ok header, if_pos rfl, run_bind_of_ok failed]; rfl⟩

/-- A visit of a group that returns true synthesized it, and met no missing key. -/
theorem visitInferenceGroup_returns {group : ASTInferenceGroup} {strict : Bool}
    (wellFormed : group.WellFormed strict) (idle : context.Idle)
    (returned : ((visitor opts opens).visitInferenceGroup group).run context = .ok (true, final)) :
    final = synthesizeGroup opts context group ∧ (group.UsesWhileClause → group.DefinesFixtures) := by
  by_cases open_ : opens (headerFilepath opts group) = true ∧ opens (cppFilepath opts group) = true
  · by_cases bad : group.UsesWhileClause ∧ ¬ group.DefinesFixtures
    · obtain ⟨key, thrown⟩ := visitInferenceGroup_throws opts opens wellFormed idle open_.1 open_.2
        bad.1 bad.2
      rw [thrown] at returned
      cases returned
    · have visited := visitInferenceGroup_run opts opens wellFormed idle open_.1 open_.2
        fun defn member premise inside holds => by
          by_contra lacks
          exact bad ⟨group.usesWhileClause_iff.mpr ⟨defn, member, premise, inside, holds⟩, lacks⟩
      rw [visited] at returned
      cases returned
      exact ⟨rfl, fun uses => by_contra fun lacks => bad ⟨uses, lacks⟩⟩
  · obtain ⟨context', failed⟩ := previsitInferenceGroup_run_of_not_opens opts opens wellFormed idle open_
    have given_up : ((visitor opts opens).visitInferenceGroup group).run context =
        .ok (false, context') := run_bind_of_ok failed
    rw [given_up] at returned
    cases returned

theorem visitInferenceGroups_returns (groups : List ASTInferenceGroup) {strict : Bool}
    (wellFormed : ∀ group ∈ groups, group.WellFormed strict) (idle : context.Idle)
    (returned : (ASTVisitor.visitAll (visitor opts opens).visitInferenceGroup groups).run context =
      .ok (true, final)) : final = groups.foldl (synthesizeGroup opts) context ∧
        ∀ group ∈ groups, group.UsesWhileClause → group.DefinesFixtures := by
  induction groups generalizing context with
  | nil =>
      cases returned
      exact ⟨rfl, by simp⟩
  | cons group rest ih =>
      obtain ⟨answer, middle, visited, walked⟩ := exists_of_run_bind returned
      cases answer with
      | false => cases walked
      | true =>
          obtain ⟨rfl, covered⟩ :=
            visitInferenceGroup_returns opts opens (wellFormed group (by simp)) idle visited
          obtain ⟨same, later⟩ := ih (fun group' member => wellFormed group' (List.mem_cons_of_mem _ member))
            (synthesizeGroup_idle opts idle group) walked
          exact ⟨same, List.forall_mem_cons.mpr ⟨covered, later⟩⟩

theorem initializeAndSynthesizeErrorCodeFiles_returns
    (returned : (initializeAndSynthesizeErrorCodeFiles opts opens).run context = .ok (true, final)) :
    final = writeErrorCodeFiles opts context := by
  rw [initializeAndSynthesizeErrorCodeFiles] at returned
  cases headerOpens : opens (outputFilepath opts errorCodeHeaderFilename) <;>
    cases cppOpens : opens (outputFilepath opts errorCodeCppFilename) <;>
    rw [headerOpens] at returned <;> try rw [cppOpens] at returned
  all_goals cases returned
  rfl

/-- A run that returns true synthesized all groups after the error code files. -/
theorem run_returns {module : ASTModule} {strict : Bool} (wellFormed : module.WellFormed strict)
    (idle : context.Idle) (returned : (run opts opens module).run context = .ok (true, final)) :
    final.files =
        (module.inferenceGroups.foldl (synthesizeGroup opts) (writeErrorCodeFiles opts context)).files ∧
      ∀ group ∈ module.inferenceGroups, group.UsesWhileClause → group.DefinesFixtures := by
  obtain ⟨answer, middle, initialized, rest⟩ := exists_of_run_bind returned
  cases answer with
  | false => cases rest
  | true =>
      obtain rfl := initializeAndSynthesizeErrorCodeFiles_returns opts opens initialized
      rw [if_pos rfl, visitModule_eq] at rest
      obtain ⟨result, last, walked, closing⟩ := exists_of_run_bind rest
      cases result with
      | false =>
          obtain ⟨_, _, _, closing⟩ := exists_of_run_bind closing
          obtain ⟨_, _, _, closing⟩ := exists_of_run_bind closing
          cases closing
      | true =>
          have begun := writeErrorCodeFiles_idle opts idle
          obtain ⟨rfl, covered⟩ := visitInferenceGroups_returns opts opens module.inferenceGroups
            wellFormed.groups begun walked
          refine ⟨?_, covered⟩
          have ended := synthesizeGroups_idle opts begun module.inferenceGroups
          generalize module.inferenceGroups.foldl (synthesizeGroup opts)
            (writeErrorCodeFiles opts context) = last at ended closing ⊢
          -- Closing a closed stream only makes it bad.
          obtain ⟨_, _, _, ⟨header, _, _⟩, ⟨cpp, _, _⟩, _⟩ := last
          obtain rfl : header = none := ended.header
          obtain rfl : cpp = none := ended.cpp
          cases closing
          rfl

end Inversion

/-! ## Paths -/

theorem outputFilepath_inj {first second : String} :
    outputFilepath opts first = outputFilepath opts second ↔ first = second := by
  simp only [outputFilepath, ← String.toList_inj, String.toList_append, List.append_cancel_left_eq]

theorem header_ne_cpp (first second : String) : first ++ ".h" ≠ second ++ ".cpp" := by
  intro same
  have ends := congrArg (fun text : String => text.toList.getLast?) same
  simp at ends

/-- No header file is a .cpp file. -/
theorem headerFilepath_ne_cppFilepath (first second : ASTInferenceGroup) :
    headerFilepath opts first ≠ cppFilepath opts second := by
  rw [headerFilepath, cppFilepath, ne_eq, outputFilepath_inj]
  exact header_ne_cpp _ _

theorem filepaths_nodup (name : String) : (filepaths opts name).Nodup := by
  simp [filepaths, outputFilepath_inj]

/-- Different names have different files, and only they. -/
theorem filepaths_disjoint_iff {first second : String} :
    (filepaths opts first).Disjoint (filepaths opts second) ↔ first ≠ second := by
  constructor
  · rintro apart rfl
    have header : outputFilepath opts (first ++ ".h") ∈ filepaths opts first := List.mem_cons_self
    exact apart header header
  · intro different path inFirst inSecond
    have sameHeader : first ++ ".h" = second ++ ".h" → False := fun same =>
      different ((String.append_left_inj ".h").mp same)
    have sameCpp : first ++ ".cpp" = second ++ ".cpp" → False := fun same =>
      different ((String.append_left_inj ".cpp").mp same)
    simp only [filepaths, List.mem_cons, List.not_mem_nil, or_false] at inFirst inSecond
    rcases inFirst with rfl | rfl <;> rcases inSecond with same | same <;>
      rw [outputFilepath_inj] at same
    · exact sameHeader same
    · exact header_ne_cpp _ _ same
    · exact header_ne_cpp _ _ same.symm
    · exact sameCpp same

theorem flatMap_filepaths_nodup_iff (names : List String) :
    (names.flatMap (filepaths opts)).Nodup ↔ names.Nodup := by
  rw [List.nodup_flatMap, List.Nodup]
  constructor
  · intro apart
    exact apart.2.imp fun disjoint => (filepaths_disjoint_iff opts).mp disjoint
  · intro distinct
    exact ⟨fun name _ => filepaths_nodup opts name,
      distinct.imp fun different => (filepaths_disjoint_iff opts).mpr different⟩

/-- The paths of the output files of a module. -/
def outputFilepaths (module : ASTModule) : List String :=
  (fileNames module).flatMap (filepaths opts)

/-- No output is lost: the paths are distinct, and after a run that returns true
the two files of each group hold the group's texts. -/
structure KeepsOutput (module : ASTModule) : Prop where
  distinct : (outputFilepaths opts module).Nodup
  kept : ∀ opens incrementalInt files final,
    (run opts opens module).run { incrementalInt := incrementalInt, files := files } =
      .ok (true, final) →
    ∀ before group after, module.inferenceGroups = before ++ group :: after →
      final.files (headerFilepath opts group) = some (headerText opts group) ∧
        final.files (cppFilepath opts group) =
          some (cppText opts group (nameIdAfterGroups before 0))

theorem files_kept (opens : String → Bool) {module : ASTModule} {strict : Bool}
    (wellFormed : module.WellFormed strict)
    (distinct : (module.inferenceGroups.map (·.clsName)).Nodup)
    {context final : SynthesisContext} (idle : context.Idle)
    (returned : (run opts opens module).run context = .ok (true, final))
    {before after : List ASTInferenceGroup} {group : ASTInferenceGroup}
    (split : module.inferenceGroups = before ++ group :: after) :
    final.files (headerFilepath opts group) = some (headerText opts group) ∧
      final.files (cppFilepath opts group) =
        some (cppText opts group (nameIdAfterGroups before context.nameId)) := by
  obtain ⟨written, -⟩ := run_returns opts opens wellFormed idle returned
  rw [synthesizeGroups_files] at written
  have paths : ((groupsFiles opts module.inferenceGroups context.nameId).map (·.1)).Nodup := by
    rw [groupsFiles_paths, flatMap_filepaths_nodup_iff]
    exact distinct
  have ours : groupsFiles opts module.inferenceGroups context.nameId =
      groupsFiles opts before context.nameId ++
        (groupFiles opts group (nameIdAfterGroups before context.nameId) ++
          groupsFiles opts after
            (nameIdAfterAll group.inferenceDefns (nameIdAfterGroups before context.nameId))) := by
    rw [split, groupsFiles_append]
    rfl
  have member : ∀ write ∈ groupFiles opts group (nameIdAfterGroups before context.nameId),
      write ∈ groupsFiles opts module.inferenceGroups context.nameId := by
    intro write inGroup
    rw [ours]
    exact List.mem_append_right _ (List.mem_append_left _ inGroup)
  rw [written]
  exact ⟨writeAll_of_mem paths (member _ (by simp [groupFiles])) _,
    writeAll_of_mem paths (member _ (by simp [groupFiles])) _⟩

/-- Over an accepted module no output is lost exactly if the class names of the
groups are distinct and none is the name of the error code files. -/
theorem keepsOutput_iff (semaOpts : SemanticAnalyzer.Options) (module : ASTModule)
    (accepted : (SemanticAnalyzer.run semaOpts module).value = true) :
    KeepsOutput opts module ↔
      (module.inferenceGroups.map (·.clsName)).Nodup ∧
        ∀ group ∈ module.inferenceGroups, group.clsName ≠ "InferenceErrorDefn" := by
  have wellFormed := (SemanticAnalyzer.visitModule_iff semaOpts.policy module).mp accepted
  have names : (outputFilepaths opts module).Nodup ↔
      (module.inferenceGroups.map (·.clsName)).Nodup ∧
        ∀ group ∈ module.inferenceGroups, group.clsName ≠ "InferenceErrorDefn" := by
    rw [outputFilepaths, flatMap_filepaths_nodup_iff, fileNames, List.nodup_cons, and_comm]
    simp only [List.mem_map, not_exists, not_and]
    rfl
  constructor
  · intro keeps
    exact names.mp keeps.distinct
  · intro apart
    exact ⟨names.mpr apart, fun opens incrementalInt files final returned before group after split =>
      files_kept opts opens wellFormed apart.1 ⟨rfl, rfl, rfl, rfl, rfl⟩ returned split⟩

theorem tutorialModule_keepsOutput_iff :
    KeepsOutput ⟨false, false, "SampleProject.sl", "./"⟩ (tutorialModule tutorialEnvironment) ↔
      ((tutorialModule tutorialEnvironment).inferenceGroups.map (·.clsName)).Nodup ∧
        ∀ group ∈ (tutorialModule tutorialEnvironment).inferenceGroups,
          group.clsName ≠ "InferenceErrorDefn" :=
  keepsOutput_iff _ ⟨true, true, false⟩ _ (by decide)

def firstTwin : ASTInferenceGroup where
  name := "First"
  environmentDefns := tutorialEnvironment
  inferenceDefns := [{
    name := "identity"
    globalDecls := []
    arguments := [⟨"arg", "ASTExpr"⟩]
    premiseDefns := [.inferencePremise ⟨⟨["arg"]⟩, .singular "Type", none⟩]
    propositionDefn := ⟨.singular "Type"⟩ }]

def secondTwin : ASTInferenceGroup where
  name := "Second"
  environmentDefns := tutorialEnvironment
  inferenceDefns := []

def twinsOptions : Options := ⟨false, false, "Twins.sl", "./"⟩

/-- Two groups of one class name are accepted and their run returns true, but
the second group's header file has taken the place of the first one's. -/
theorem twins_lose : (SemanticAnalyzer.run ⟨true, true, false⟩ ⟨[firstTwin, secondTwin]⟩).value = true ∧
    ¬ KeepsOutput twinsOptions ⟨[firstTwin, secondTwin]⟩ ∧
    ∃ final, (run twinsOptions (fun _ => true) ⟨[firstTwin, secondTwin]⟩).run {} =
        .ok (true, final) ∧
      final.files (headerFilepath twinsOptions firstTwin) ≠
        some (headerText twinsOptions firstTwin) := by
  have accepted : (SemanticAnalyzer.run ⟨true, true, false⟩ ⟨[firstTwin, secondTwin]⟩).value = true := by
    decide
  have wellFormed := (SemanticAnalyzer.visitModule_iff ⟨true, true⟩ _).mp accepted
  have idle := SynthesisContext.idle_initial 1 fun _ => none
  obtain ⟨final, completed, files⟩ := run_of_covered twinsOptions (fun _ => true)
    wellFormed idle (fun _ => rfl) (by decide)
  have replaced : final.files (headerFilepath twinsOptions firstTwin) =
      some (headerText twinsOptions secondTwin) := by
    rw [files, synthesizeGroups_files, groupsFiles, writeAll_append]
    exact writeAll_cons (by simp [groupsFiles, outputFilepath_inj]) _ _
  have lost : final.files (headerFilepath twinsOptions firstTwin) ≠
      some (headerText twinsOptions firstTwin) := by
    rw [replaced]
    intro same
    have declarations := (String.append_right_inj _).mp
      ((String.append_left_inj _).mp (Option.some.inj same))
    have empty := congrArg String.toList declarations
    simp [declarationsText, declarationText, declarationLine, firstTwin, secondTwin] at empty
  exact ⟨accepted, fun keeps => lost (keeps.kept _ _ _ _ completed [] firstTwin [secondTwin] rfl).1,
    final, completed, lost⟩

end Synthesizer

end Snowlake
