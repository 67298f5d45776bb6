import Snowlake.Synth.Output

/-! # How a run of the synthesizer ends

Over a module that was accepted a run ends in one of four ways, whichever files
open: it gives up at the error code files, it writes the files of every group, it
gives up at the first group whose files do not open, or it throws at the first
group that lacks a fixture.
-/

namespace Snowlake

open Emitted Writes

namespace Synthesizer

variable (opts : Options) (opens : String → Bool)

/-- The two files of a group open. -/
def Opens (group : ASTInferenceGroup) : Prop :=
  opens (headerFilepath opts group) = true ∧ opens (cppFilepath opts group) = true

/-- A group is synthesized. -/
def Completes (group : ASTInferenceGroup) : Prop :=
  Opens opts opens group ∧ (group.UsesWhileClause → group.DefinesFixtures)

/-- The first group that is not synthesized. -/
def FirstIncomplete (groups : List ASTInferenceGroup) (group : ASTInferenceGroup) : Prop :=
  ∃ before after, groups = before ++ group :: after ∧
    (∀ earlier ∈ before, Completes opts opens earlier) ∧ ¬ Completes opts opens group

def ErrorCodeFilesOpen : Prop :=
  opens (outputFilepath opts errorCodeHeaderFilename) = true ∧
    opens (outputFilepath opts errorCodeCppFilename) = true

instance (group : ASTInferenceGroup) : Decidable (Opens opts opens group) :=
  inferInstanceAs (Decidable (_ ∧ _))

instance : Decidable (ErrorCodeFilesOpen opts opens) := inferInstanceAs (Decidable (_ ∧ _))

/-- What `handleErrorWithMessage` registers. -/
def synthesisError (msg : String) : Diagnostic := ⟨8, msg, "synthesis error", "invalid output"⟩

/-- The context after a group was given up. -/
def giveUp (context : SynthesisContext) (group : ASTInferenceGroup) : SynthesisContext :=
  if opens (headerFilepath opts group) then { context with
    headerFileOfs := ⟨some (headerFilepath opts group), true, ""⟩
    cppFileOfs := { context.cppFileOfs with good := false }
    files := Function.update context.files (headerFilepath opts group) (some "")
    errors := context.errors ++ [synthesisError "Failed to create output .cpp file"] }
  else { context with
    headerFileOfs := { context.headerFileOfs with good := false }
    errors := context.errors ++ [synthesisError "Failed to create output .h file"] }

variable {context : SynthesisContext}

theorem FirstIncomplete.unique {opts : Options} {opens : String → Bool} {groups : List ASTInferenceGroup}
    {group other : ASTInferenceGroup} (first : FirstIncomplete opts opens groups group)
    (others : FirstIncomplete opts opens groups other) : group = other := by
  classical
  have found {group : ASTInferenceGroup} (first : FirstIncomplete opts opens groups group) :
      groups.find? (fun group => decide ¬ Completes opts opens group) = some group := by
    obtain ⟨before, after, split, all, incomplete⟩ := first
    refine List.find?_eq_some_iff_append.mpr ⟨by simpa using incomplete, before, after, split, ?_⟩
    simpa using all
  exact Option.some.inj ((found first).symm.trans (found others))

/-! ## A group -/

theorem openHeaderFile_fails (context : SynthesisContext) {path : String} (canNotOpen : opens path = false) :
    (openHeaderFile opens path).run context = .ok (false, { context with
      headerFileOfs := { context.headerFileOfs with good := false }
      errors := context.errors ++ [synthesisError "Failed to create output .h file"] }) := by
  have opened : (modify fun context : SynthesisContext => { context with
      headerFileOfs := context.headerFileOfs.openFile opens path } : Synth Unit).run context =
      .ok ((), { context with headerFileOfs := { context.headerFileOfs with good := false } }) := by
    rw [← openFile_of_not_opens opens canNotOpen]
    rfl
  rw [openHeaderFile, run_bind_of_ok opened]
  rfl

theorem openCppFile_fails (context : SynthesisContext) {path : String} (canNotOpen : opens path = false) :
    (openCppFile opens path).run context = .ok (false, { context with
      cppFileOfs := { context.cppFileOfs with good := false }
      errors := context.errors ++ [synthesisError "Failed to create output .cpp file"] }) := by
  have opened : (modify fun context : SynthesisContext => { context with
      cppFileOfs := context.cppFileOfs.openFile opens path } : Synth Unit).run context =
      .ok ((), { context with cppFileOfs := { context.cppFileOfs with good := false } }) := by
    rw [← openFile_of_not_opens opens canNotOpen]
    rfl
  rw [openCppFile, run_bind_of_ok opened]
  rfl

theorem visitInferenceGroup_gives_up {group : ASTInferenceGroup} {strict : Bool}
    (wellFormed : group.WellFormed strict) (idle : context.Idle) (closed : ¬ Opens opts opens group) :
    ((visitor opts opens).visitInferenceGroup group).run context =
      .ok (false, giveUp opts opens context group) := by
  have clsName : (getClassNameFromEnvDefn group.envDefnMap).run context =
      .ok (group.clsName, context) := by
    rw [getClassNameFromEnvDefn, ASTInferenceGroup.envDefnMap_of_mem wellFormed.className]
    rfl
  have typeCls : (atKey group.envDefnMap envnDefnKeyForTypeClass).run context =
      .ok (group.names.typeCls, context) := by
    rw [atKey, ASTInferenceGroup.envDefnMap_of_mem wellFormed.typeClass]
    rfl
  have begun : (previsitInferenceGroup opts opens group).run context =
      .ok (false, giveUp opts opens context group) := by
    rw [previsitInferenceGroup, run_bind_of_ok clsName, run_bind_of_ok typeCls, giveUp]
    cases headerOpens : opens (headerFilepath opts group) with
    | false =>
        rw [run_bind_of_ok (openHeaderFile_fails opens context headerOpens)]
        rfl
    | true =>
        have cppFails : opens (cppFilepath opts group) = false := by
          rw [← Bool.not_eq_true]
          exact fun cppOpens => closed ⟨headerOpens, cppOpens⟩
        rw [run_bind_of_ok (openHeaderFile_run opens context idle.header headerOpens), if_pos rfl,
          run_bind_of_ok (openCppFile_fails opens _ cppFails)]
        rfl
  exact run_bind_of_ok begun

/-- One group: it is given up, it throws, or it is synthesized. -/
theorem visitInferenceGroup_completes {group : ASTInferenceGroup} {strict : Bool}
    (wellFormed : group.WellFormed strict) (idle : context.Idle) (completes : Completes opts opens group) :
    ((visitor opts opens).visitInferenceGroup group).run context =
      .ok (true, synthesizeGroup opts context group) :=
  visitInferenceGroup_run opts opens wellFormed idle completes.1.1 completes.1.2
    fun defn inside premise nested holds =>
      completes.2 (group.usesWhileClause_iff.mpr ⟨defn, inside, premise, nested, holds⟩)

/-! ## The groups of a module -/

/-- How the visit of the groups ends. -/
inductive Walked (context : SynthesisContext) (groups : List ASTInferenceGroup) :
    Except Fault (Bool × SynthesisContext) → Prop
  | completed : (∀ group ∈ groups, Completes opts opens group) →
      Walked context groups (.ok (true, groups.foldl (synthesizeGroup opts) context))
  | givenUp {before group after} : groups = before ++ group :: after →
      (∀ earlier ∈ before, Completes opts opens earlier) → ¬ Opens opts opens group →
      Walked context groups
        (.ok (false, giveUp opts opens (before.foldl (synthesizeGroup opts) context) group))
  | thrown {before group after key} : groups = before ++ group :: after →
      (∀ earlier ∈ before, Completes opts opens earlier) → Opens opts opens group →
      group.UsesWhileClause → ¬ group.DefinesFixtures →
      Walked context groups (.error (.outOfRange key))

theorem visitInferenceGroups_walked (groups : List ASTInferenceGroup) {strict : Bool}
    (wellFormed : ∀ group ∈ groups, group.WellFormed strict) (idle : context.Idle) :
    Walked opts opens context groups
      ((ASTVisitor.visitAll (visitor opts opens).visitInferenceGroup groups).run context) := by
  induction groups generalizing context with
  | nil => exact .completed (by simp)
  | cons group rest ih =>
      have here := wellFormed group List.mem_cons_self
      by_cases open_ : Opens opts opens group
      case neg =>
        have ended := visitInferenceGroup_gives_up opts opens here idle open_
        rw [ASTVisitor.visitAll, ASTVisitor.verify, run_bind_of_ok ended]
        exact .givenUp (List.nil_append _).symm (by simp) open_
      by_cases bad : group.UsesWhileClause ∧ ¬ group.DefinesFixtures
      case pos =>
        obtain ⟨key, thrown⟩ := visitInferenceGroup_throws opts opens here idle open_.1 open_.2 bad.1 bad.2
        rw [ASTVisitor.visitAll, ASTVisitor.verify, run_bind_of_error thrown]
        exact .thrown (List.nil_append _).symm (by simp) open_ bad.1 bad.2
      have completes : Completes opts opens group :=
        ⟨open_, fun uses => by_contra fun lacks => bad ⟨uses, lacks⟩⟩
      have first := visitInferenceGroup_completes opts opens here idle completes
      rw [ASTVisitor.visitAll, run_verify_of_ok first]
      have later := ih (fun other member => wellFormed other (List.mem_cons_of_mem _ member))
        (synthesizeGroup_idle opts idle group)
      generalize (ASTVisitor.visitAll (visitor opts opens).visitInferenceGroup rest).run
        (synthesizeGroup opts context group) = ended at later ⊢
      cases later with
      | completed all => exact .completed (List.forall_mem_cons.mpr ⟨completes, all⟩)
      | givenUp split all closed =>
          rw [split]
          exact .givenUp (List.cons_append ..).symm (List.forall_mem_cons.mpr ⟨completes, all⟩) closed
      | thrown split all opened uses lacks =>
          rw [split]
          have all := List.forall_mem_cons.mpr ⟨completes, all⟩
          exact .thrown (List.cons_append ..).symm all opened uses lacks

/-! ## A run -/

/-- The writes of the error code files and of some groups, in order. -/
def writes (groups : List ASTInferenceGroup) (nameId : UInt32) : List (String × Option String) :=
  (outputFilepath opts errorCodeHeaderFilename, some errorCodeHeaderText) ::
    (outputFilepath opts errorCodeCppFilename, some errorCodeCppText) :: groupsFiles opts groups nameId

/-- How a run ends, and what it has written by then. -/
inductive Outcome (context : SynthesisContext) (module : ASTModule) :
    Except Fault (Bool × SynthesisContext) → Prop
  /-- An error code file does not open, of which no error tells. -/
  | unwritten {final} : ¬ ErrorCodeFilesOpen opts opens → final.errors = context.errors →
      (∀ path, path ≠ outputFilepath opts errorCodeHeaderFilename → final.files path = context.files path) →
      Outcome context module (.ok (false, final))
  | completed {final} : ErrorCodeFilesOpen opts opens →
      (∀ group ∈ module.inferenceGroups, Completes opts opens group) → final.errors = context.errors →
      final.files = writeAll context.files (writes opts module.inferenceGroups context.nameId) →
      Outcome context module (.ok (true, final))
  | givenUp {before group after final msg} : ErrorCodeFilesOpen opts opens →
      module.inferenceGroups = before ++ group :: after →
      (∀ earlier ∈ before, Completes opts opens earlier) → ¬ Opens opts opens group →
      final.errors = context.errors ++ [synthesisError msg] →
      (∀ path, final.files path = writeAll context.files (writes opts before context.nameId) path ∨
        path = headerFilepath opts group ∧ final.files path = some "") →
      Outcome context module (.ok (false, final))
  | thrown {group key} : ErrorCodeFilesOpen opts opens →
      FirstIncomplete opts opens module.inferenceGroups group → Opens opts opens group →
      group.UsesWhileClause → ¬ group.DefinesFixtures → Outcome context module (.error (.outOfRange key))

theorem synthesizeGroups_writes (groups : List ASTInferenceGroup) (context : SynthesisContext) :
    (groups.foldl (synthesizeGroup opts) (writeErrorCodeFiles opts context)).files =
      writeAll context.files (writes opts groups context.nameId) := by
  rw [synthesizeGroups_files, writeErrorCodeFiles, Function.update_idem]
  rfl

theorem synthesizeGroups_errors (groups : List ASTInferenceGroup) (context : SynthesisContext) :
    (groups.foldl (synthesizeGroup opts) context).errors = context.errors := by
  induction groups generalizing context with
  | nil => rfl
  | cons group rest ih => exact ih _

theorem initializeAndSynthesizeErrorCodeFiles_run_of_open (open_ : ErrorCodeFilesOpen opts opens) :
    (initializeAndSynthesizeErrorCodeFiles opts opens).run context =
      .ok (true, writeErrorCodeFiles opts context) := by
  simp only [initializeAndSynthesizeErrorCodeFiles, open_.1, open_.2, if_true]
  rfl

theorem initializeAndSynthesizeErrorCodeFiles_run_of_not_open (closed : ¬ ErrorCodeFilesOpen opts opens) :
    ∃ final, (initializeAndSynthesizeErrorCodeFiles opts opens).run context = .ok (false, final) ∧
      final.errors = context.errors ∧
      ∀ path, path ≠ outputFilepath opts errorCodeHeaderFilename →
        final.files path = context.files path := by
  rw [initializeAndSynthesizeErrorCodeFiles]
  cases headerOpens : opens (outputFilepath opts errorCodeHeaderFilename) with
  | false => exact ⟨context, rfl, rfl, fun _ _ => rfl⟩
  | true =>
      have cppFails : opens (outputFilepath opts errorCodeCppFilename) = false := by
        rw [← Bool.not_eq_true]
        exact fun cppOpens => closed ⟨headerOpens, cppOpens⟩
      rw [cppFails]
      exact ⟨_, rfl, rfl, fun path other => Function.update_of_ne other _ _⟩

/-- Closing the streams writes the files that are open. -/
theorem close_run (context : SynthesisContext) (result : Bool) :
    ∃ final, (do closeHeaderFile; closeCppFile; return result : Synth Bool).run context =
        .ok (result, final) ∧ final.errors = context.errors ∧
      ∀ path, some path ≠ context.cppFileOfs.path → final.files path =
        if some path = context.headerFileOfs.path then some context.headerFileOfs.text
        else context.files path := by
  obtain ⟨_, _, _, ⟨header, _, text⟩, ⟨cpp, _, _⟩, _⟩ := context
  have closed (files : String → Option String) (header path : String) :
      Function.update files header (some text) path =
        if some path = some header then some text else files path := by
    simp only [Function.update_apply, Option.some.injEq]
  cases header with
  | none =>
      cases cpp with
      | none => exact ⟨_, rfl, rfl, fun _ _ => rfl⟩
      | some cpp =>
          refine ⟨_, rfl, rfl, fun path notCpp => ?_⟩
          exact Function.update_of_ne (fun same => notCpp (congrArg some same)) _ _
  | some header =>
      cases cpp with
      | none => exact ⟨_, rfl, rfl, fun path _ => closed _ header path⟩
      | some cpp =>
          refine ⟨_, rfl, rfl, fun path notCpp => ?_⟩
          exact (Function.update_of_ne (fun same => notCpp (congrArg some same)) _ _).trans
            (closed _ header path)

theorem giveUp_errors (context : SynthesisContext) (group : ASTInferenceGroup) :
    ∃ msg, (giveUp opts opens context group).errors = context.errors ++ [synthesisError msg] := by
  unfold giveUp
  split <;> exact ⟨_, rfl⟩

/-- What a group that is given up leaves open, if anything, is its header file, and
nothing was written to it. -/
theorem giveUp_files {context : SynthesisContext} (idle : context.Idle) (group : ASTInferenceGroup) :
    (giveUp opts opens context group).cppFileOfs.path = none ∧
      ∀ path, (if some path = (giveUp opts opens context group).headerFileOfs.path
          then some (giveUp opts opens context group).headerFileOfs.text
          else (giveUp opts opens context group).files path) = context.files path ∨
        path = headerFilepath opts group ∧
          (if some path = (giveUp opts opens context group).headerFileOfs.path
            then some (giveUp opts opens context group).headerFileOfs.text
            else (giveUp opts opens context group).files path) = some "" := by
  unfold giveUp
  split
  · refine ⟨idle.cpp, fun path => ?_⟩
    by_cases same : path = headerFilepath opts group
    · exact .inr ⟨same, if_pos (congrArg some same)⟩
    · rw [if_neg fun opened => same (Option.some.inj opened)]
      exact .inl (Function.update_of_ne same _ _)
  · refine ⟨idle.cpp, fun path => .inl (if_neg ?_)⟩
    rw [idle.header]
    exact Option.some_ne_none path

/-- Every run over a well-formed module ends in one of the ways. -/
theorem run_outcome {module : ASTModule} {strict : Bool} (wellFormed : module.WellFormed strict)
    (idle : context.Idle) : Outcome opts opens context module ((run opts opens module).run context) := by
  by_cases open_ : ErrorCodeFilesOpen opts opens
  case neg =>
    obtain ⟨final, ended, sameErrors, sameFiles⟩ :=
      initializeAndSynthesizeErrorCodeFiles_run_of_not_open opts opens open_
    rw [run, run_bind_of_ok ended, if_neg Bool.false_ne_true]
    exact .unwritten open_ sameErrors sameFiles
  have begun := writeErrorCodeFiles_idle opts idle
  have walked := visitInferenceGroups_walked opts opens module.inferenceGroups wellFormed.groups begun
  rw [run, run_bind_of_ok (initializeAndSynthesizeErrorCodeFiles_run_of_open opts opens open_), if_pos rfl,
    visitModule_eq]
  generalize ended : (ASTVisitor.visitAll (visitor opts opens).visitInferenceGroup
    module.inferenceGroups).run (writeErrorCodeFiles opts context) = result at walked
  cases walked with
  | completed all =>
      rw [run_bind_of_ok ended]
      obtain ⟨final, closes, sameErrors, files⟩ := close_run
        (module.inferenceGroups.foldl (synthesizeGroup opts) (writeErrorCodeFiles opts context)) true
      have idleLast := synthesizeGroups_idle opts begun module.inferenceGroups
      rw [closes]
      refine .completed open_ all (sameErrors.trans (synthesizeGroups_errors opts _ _)) ?_
      rw [← synthesizeGroups_writes]
      funext path
      have neither : some path ≠ none := Option.some_ne_none path
      rw [files path (by rw [idleLast.cpp]; exact neither), idleLast.header, if_neg neither]
  | @givenUp before group after split all notOpen =>
      rw [run_bind_of_ok ended]
      obtain ⟨final, closes, sameErrors, files⟩ := close_run (giveUp opts opens
        (before.foldl (synthesizeGroup opts) (writeErrorCodeFiles opts context)) group) false
      have idleLast := synthesizeGroups_idle opts begun before
      obtain ⟨msg, isError⟩ := giveUp_errors opts opens
        (before.foldl (synthesizeGroup opts) (writeErrorCodeFiles opts context)) group
      rw [closes]
      refine .givenUp open_ split all notOpen (?_ : final.errors = context.errors ++ [synthesisError msg])
        fun path => ?_
      · rw [sameErrors, isError, synthesizeGroups_errors]
        rfl
      · obtain ⟨noCpp, sameFile⟩ := giveUp_files opts opens idleLast group
        rw [files path (by rw [noCpp]; exact Option.some_ne_none path), ← synthesizeGroups_writes]
        exact sameFile path
  | thrown split all opened uses lacks =>
      rw [run_bind_of_error ended]
      exact .thrown open_ ⟨_, _, split, all, fun completes => lacks (completes.2 uses)⟩ opened uses lacks

/-! ## The files that a run touches -/

theorem writes_paths (groups : List ASTInferenceGroup) (nameId : UInt32) :
    (writes opts groups nameId).map (·.1) = outputFilepaths opts ⟨groups⟩ := by
  rw [writes, List.map_cons, List.map_cons, groupsFiles_paths]
  rfl

theorem outputFilepaths_subset {groups : List ASTInferenceGroup} {module : ASTModule}
    (subset : groups ⊆ module.inferenceGroups) :
    outputFilepaths opts ⟨groups⟩ ⊆ outputFilepaths opts module := by
  intro path inside
  obtain ⟨name, isName, inFiles⟩ := List.mem_flatMap.mp inside
  exact List.mem_flatMap.mpr ⟨name, List.cons_subset_cons _ (List.map_subset _ subset) isName, inFiles⟩

/-- Nothing but the output files of the module is touched. -/
theorem Outcome.keeps {module : ASTModule} {res : Bool} {final : SynthesisContext}
    (ends : Outcome opts opens context module (.ok (res, final))) {path : String}
    (outside : path ∉ outputFilepaths opts module) : final.files path = context.files path := by
  have keeps {groups : List ASTInferenceGroup} (subset : groups ⊆ module.inferenceGroups) :
      writeAll context.files (writes opts groups context.nameId) path = context.files path := by
    refine writeAll_of_notMem (fun written => outside ?_) _
    rw [writes_paths] at written
    exact outputFilepaths_subset opts subset written
  cases ends with
  | unwritten _ _ sameFiles =>
      refine sameFiles path fun isHeader => outside ?_
      rw [isHeader, ← writes_paths opts module.inferenceGroups 0]
      exact List.mem_cons_self
  | completed _ _ _ files => rw [files, keeps (List.Subset.refl _)]
  | @givenUp before group after _ _ _ split _ _ _ files =>
      rcases files path with same | ⟨rfl, -⟩
      · rw [same, keeps (by simp [split])]
      · refine absurd (List.mem_flatMap.mpr ⟨group.clsName, ?_, List.mem_cons_self⟩) outside
        exact List.mem_cons_of_mem _ (List.mem_map.mpr ⟨group, by simp [split], rfl⟩)

end Synthesizer

end Snowlake
