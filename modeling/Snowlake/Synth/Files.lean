import Snowlake.Synth.Refinement
import Snowlake.Sema.WellFormed

/-! # The files of a run

What a run of the synthesizer leaves behind when every environment key it looks
up is defined and every file opens: the texts of the header and the .cpp file of
each group, in the order of the groups.
-/

namespace Snowlake

open Emitted

namespace Synthesizer

/-! ## Environment definitions -/

theorem foldl_envnDefns_isSome (environmentDefns : List ASTEnvironmentDefn) (env : EnvDefnMap)
    (key : StringType) :
    ((environmentDefns.foldl (fun envDefnMap envnDefn =>
        Function.update envDefnMap envnDefn.field (some envnDefn.value)) env : EnvDefnMap) key).isSome =
          true ↔
      key ∈ environmentDefns.map (·.field) ∨ (env key).isSome = true := by
  induction environmentDefns generalizing env with
  | nil => simp
  | cons head tail ih =>
      rw [List.foldl_cons, ih, List.map_cons, List.mem_cons]
      by_cases same : key = head.field
      · simp [same]
      · rw [Function.update_of_ne same]
        simp [same]

/-- The map has a value for exactly the fields that are defined. -/
theorem getEnvnDefnMap_isSome (environmentDefns : List ASTEnvironmentDefn) (key : StringType) :
    (getEnvnDefnMap environmentDefns key).isSome = true ↔ key ∈ environmentDefns.map (·.field) := by
  rw [getEnvnDefnMap, foldl_envnDefns_isSome]
  simp

/-- A value comes from a definition. -/
theorem mem_of_getEnvnDefnMap {environmentDefns : List ASTEnvironmentDefn} {key value : StringType}
    (found : getEnvnDefnMap environmentDefns key = some value) :
    ∃ defn ∈ environmentDefns, defn.value = value := by
  induction environmentDefns using List.reverseRecOn with
  | nil => cases found
  | append_singleton front last ih =>
      rw [getEnvnDefnMap, List.foldl_append] at found
      by_cases same : key = last.field
      · subst same
        simp only [List.foldl_cons, List.foldl_nil, Function.update_self, Option.some.injEq] at found
        exact ⟨last, by simp, found⟩
      · simp only [List.foldl_cons, List.foldl_nil, Function.update_of_ne same] at found
        obtain ⟨defn, member, isValue⟩ := ih found
        exact ⟨defn, by simp [member], isValue⟩

end Synthesizer

namespace ASTInferenceGroup

open Synthesizer

abbrev envDefnMap (group : ASTInferenceGroup) : EnvDefnMap := getEnvnDefnMap group.environmentDefns

/-- The value of a field of the environment definitions. -/
def environment (group : ASTInferenceGroup) (key : StringType) : StringType :=
  (group.envDefnMap key).getD ""

def clsName (group : ASTInferenceGroup) : StringType := group.environment envnDefnKeyForClass

def names (group : ASTInferenceGroup) : Names where
  typeCls := group.environment envnDefnKeyForTypeClass
  proofMethod := group.environment envnDefnKeyForProofMethod
  typeCmpMethod := group.environment envnDefnKeyForTypeCmpMethod
  setupMethod := group.environment envnDefnKeyForTypeAnnotationSetupMethod
  teardownMethod := group.environment envnDefnKeyForTypeAnnotationTeardownMethod

theorem envDefnMap_of_mem {group : ASTInferenceGroup} {key : StringType} (defined : key ∈ group.fields) :
    group.envDefnMap key = some (group.environment key) := by
  have present := (getEnvnDefnMap_isSome group.environmentDefns key).mpr defined
  obtain ⟨value, found⟩ := Option.isSome_iff_exists.mp present
  rw [environment, envDefnMap, found, Option.getD_some]

theorem envDefnMap_of_notMem {group : ASTInferenceGroup} {key : StringType}
    (undefined : key ∉ group.fields) : group.envDefnMap key = none := by
  rw [← Option.not_isSome_iff_eq_none, envDefnMap, getEnvnDefnMap_isSome]
  exact undefined

theorem environment_of_mem {group : ASTInferenceGroup} {key : StringType}
    (defined : key ∈ group.fields) :
    ∃ defn ∈ group.environmentDefns, defn.value = group.environment key :=
  mem_of_getEnvnDefnMap (envDefnMap_of_mem defined)

/-- The context serves the hooks once the group's names are in it. -/
theorem serves {group : ASTInferenceGroup} {strict : Bool} (wellFormed : group.WellFormed strict)
    {context : SynthesisContext} (typeCls : context.typeCls = group.names.typeCls)
    (envDefnMap : context.envDefnMap = group.envDefnMap) {level : Nat}
    (indentLvl : context.cppFileIndentLvl = level) :
    context.Serves group.names group.DefinesFixtures level where
  typeCls := typeCls
  typeClass := by rw [envDefnMap, envDefnMap_of_mem wellFormed.typeClass]; rfl
  proofMethod := by rw [envDefnMap, envDefnMap_of_mem wellFormed.proofMethod]; rfl
  typeCmpMethod := by rw [envDefnMap, envDefnMap_of_mem wellFormed.typeCmpMethod]; rfl
  setupMethod := fun defined => by rw [envDefnMap, envDefnMap_of_mem defined.1]; rfl
  teardownMethod := fun defined => by rw [envDefnMap, envDefnMap_of_mem defined.2]; rfl
  indentLvl := indentLvl

end ASTInferenceGroup

namespace Synthesizer

/-! ## The text of a group -/

variable (opts : Options)

/-- The functions of a group, in the header file. -/
def declarationsText (typeCls : StringType) : List ASTInferenceDefn → String
  | [] => ""
  | defn :: rest => declarationText opts typeCls defn ++ declarationsText typeCls rest

/-- The functions of a group, in the .cpp file. -/
def definitionsText (names : Names) (clsName : StringType) :
    List ASTInferenceDefn → UInt32 → String
  | [], _ => ""
  | defn :: rest, nameId =>
      definitionText opts names clsName defn nameId ++
        definitionsText names clsName rest (nameIdAfter defn nameId)

def nameIdAfterAll : List ASTInferenceDefn → UInt32 → UInt32
  | [], nameId => nameId
  | defn :: rest, nameId => nameIdAfterAll rest (nameIdAfter defn nameId)

def headerText (group : ASTInferenceGroup) : String :=
  headerPreamble opts group.clsName ++
    declarationsText opts group.names.typeCls group.inferenceDefns ++ "\x7d;\n"

def cppText (group : ASTInferenceGroup) (nameId : UInt32) : String :=
  cppPreamble opts group.clsName ++
    definitionsText opts group.names group.clsName group.inferenceDefns nameId

abbrev headerFilepath (group : ASTInferenceGroup) : String := outputFilepath opts (group.clsName ++ ".h")

abbrev cppFilepath (group : ASTInferenceGroup) : String := outputFilepath opts (group.clsName ++ ".cpp")

/-- The context after a group was synthesized. -/
def synthesizeGroup (context : SynthesisContext) (group : ASTInferenceGroup) : SynthesisContext :=
  { context with
    clsName := group.clsName
    typeCls := group.names.typeCls
    envDefnMap := group.envDefnMap
    headerFileOfs := ⟨none, true, headerText opts group⟩
    cppFileOfs := ⟨none, true, cppText opts group context.nameId⟩
    nameId := nameIdAfterAll group.inferenceDefns context.nameId
    files := Function.update
      (Function.update context.files (headerFilepath opts group) (some (headerText opts group)))
      (cppFilepath opts group) (some (cppText opts group context.nameId)) }

end Synthesizer

/-- Between two groups no file is open and nothing is indented. -/
structure SynthesisContext.Idle (context : SynthesisContext) : Prop where
  header : context.headerFileOfs.path = none
  cpp : context.cppFileOfs.path = none
  headerFileIndentLvl : context.headerFileIndentLvl = 0
  cppFileIndentLvl : context.cppFileIndentLvl = 0
  numPremisesProcessed : context.numPremisesProcessed = 0

/-- The context in which the synthesizer is created. -/
theorem SynthesisContext.idle_initial (incrementalInt : UInt64) (files : String → Option String) :
    SynthesisContext.Idle { incrementalInt := incrementalInt, files := files } :=
  ⟨rfl, rfl, rfl, rfl, rfl⟩

namespace Synthesizer

variable (opts : Options)

theorem synthesizeGroup_idle {context : SynthesisContext} (idle : context.Idle)
    (group : ASTInferenceGroup) : (synthesizeGroup opts context group).Idle :=
  ⟨rfl, rfl, idle.headerFileIndentLvl, idle.cppFileIndentLvl, idle.numPremisesProcessed⟩

theorem synthesizeGroups_idle {context : SynthesisContext} (idle : context.Idle)
    (groups : List ASTInferenceGroup) : (groups.foldl (synthesizeGroup opts) context).Idle := by
  induction groups generalizing context with
  | nil => exact idle
  | cons group rest ih => exact ih (synthesizeGroup_idle opts idle group)

/-! ## The walk -/

section Walk

variable (opens : String → Bool) {context : SynthesisContext}

/-- The context once a group's files are open and begun. -/
def openGroup (context : SynthesisContext) (group : ASTInferenceGroup) : SynthesisContext :=
  { context with
    clsName := group.clsName
    typeCls := group.names.typeCls
    envDefnMap := group.envDefnMap
    headerFileOfs := ⟨some (headerFilepath opts group), true, headerPreamble opts group.clsName⟩
    cppFileOfs := ⟨some (cppFilepath opts group), true, cppPreamble opts group.clsName⟩
    files := Function.update (Function.update context.files (headerFilepath opts group) (some ""))
      (cppFilepath opts group) (some "") }

theorem openGroup_serves {group : ASTInferenceGroup} {strict : Bool}
    (wellFormed : group.WellFormed strict) (idle : context.Idle) :
    (openGroup opts context group).Serves group.names group.DefinesFixtures 0 :=
  ASTInferenceGroup.serves wellFormed rfl rfl idle.cppFileIndentLvl

theorem openFile_of_closed {ofs : OfStream} {path : String} (closed : ofs.path = none)
    (canOpen : opens path = true) : ofs.openFile opens path = ⟨some path, true, ""⟩ := by
  rw [OfStream.openFile, closed, canOpen]
  rfl

theorem openHeaderFile_run (context : SynthesisContext) {path : String} (closed : context.headerFileOfs.path = none)
    (canOpen : opens path = true) :
    (openHeaderFile opens path).run context = .ok (true, { context with
      headerFileOfs := ⟨some path, true, ""⟩
      files := Function.update context.files path (some "") }) := by
  have opened : (modify fun context : SynthesisContext => { context with
      headerFileOfs := context.headerFileOfs.openFile opens path } : Synth Unit).run context =
      .ok ((), { context with headerFileOfs := ⟨some path, true, ""⟩ }) := by
    rw [← openFile_of_closed opens closed canOpen]
    rfl
  rw [openHeaderFile, run_bind_of_ok opened]
  rfl

theorem openCppFile_run (context : SynthesisContext) {path : String} (closed : context.cppFileOfs.path = none)
    (canOpen : opens path = true) :
    (openCppFile opens path).run context = .ok (true, { context with
      cppFileOfs := ⟨some path, true, ""⟩
      files := Function.update context.files path (some "") }) := by
  have opened : (modify fun context : SynthesisContext => { context with
      cppFileOfs := context.cppFileOfs.openFile opens path } : Synth Unit).run context =
      .ok ((), { context with cppFileOfs := ⟨some path, true, ""⟩ }) := by
    rw [← openFile_of_closed opens closed canOpen]
    rfl
  rw [openCppFile, run_bind_of_ok opened]
  rfl

theorem previsitInferenceGroup_run {group : ASTInferenceGroup} {strict : Bool}
    (wellFormed : group.WellFormed strict) (idle : context.Idle)
    (headerOpens : opens (headerFilepath opts group) = true)
    (cppOpens : opens (cppFilepath opts group) = true) :
    (previsitInferenceGroup opts opens group).run context = .ok (true, openGroup opts context group) := by
  have clsName : (getClassNameFromEnvDefn group.envDefnMap).run context =
      .ok (group.clsName, context) := by
    rw [getClassNameFromEnvDefn, ASTInferenceGroup.envDefnMap_of_mem wellFormed.className]
    rfl
  have typeCls : (atKey group.envDefnMap envnDefnKeyForTypeClass).run context =
      .ok (group.names.typeCls, context) := by
    rw [atKey, ASTInferenceGroup.envDefnMap_of_mem wellFormed.typeClass]
    rfl
  have header := openHeaderFile_run opens context idle.header headerOpens
  have cpp := openCppFile_run opens { context with
    headerFileOfs := ⟨some (headerFilepath opts group), true, ""⟩
    files := Function.update context.files (headerFilepath opts group) (some "") } idle.cpp cppOpens
  rw [previsitInferenceGroup, run_bind_of_ok clsName, run_bind_of_ok typeCls, run_bind_of_ok header,
    if_pos rfl, run_bind_of_ok cpp, if_pos rfl]
  have begun : ∀ text, OfStream.write ⟨some (headerFilepath opts group), true, ""⟩ text =
      ⟨some (headerFilepath opts group), true, text⟩ := fun text => by
    rw [OfStream.write, String.empty_append]
  have begun' : ∀ text, OfStream.write ⟨some (cppFilepath opts group), true, ""⟩ text =
      ⟨some (cppFilepath opts group), true, text⟩ := fun text => by
    rw [OfStream.write, String.empty_append]
  rw [openGroup, ← begun, ← begun']
  rfl

theorem visitInferenceDefns_run {names : Names} {fixtures : Prop} (defns : List ASTInferenceDefn)
    (serves : context.Serves names fixtures 0) (header : context.headerFileIndentLvl = 0)
    (fresh : context.numPremisesProcessed = 0)
    (covered : ∀ defn ∈ defns, ∀ premise ∈ defn.premiseDefns, premise.hasWhileClause = true → fixtures) :
    (ASTVisitor.visitAll (visitor opts opens).visitInferenceDefn defns).run context =
      .ok (true, { context with
        headerFileOfs := context.headerFileOfs.write (declarationsText opts names.typeCls defns)
        cppFileOfs := context.cppFileOfs.write
          (definitionsText opts names context.clsName defns context.nameId)
        nameId := nameIdAfterAll defns context.nameId }) := by
  induction defns generalizing context with
  | nil => simp only [declarationsText, definitionsText, OfStream.write, String.append_empty]; rfl
  | cons defn rest ih =>
      have first := visitInferenceDefn_run opts opens defn serves header fresh (covered defn (by simp))
      have served : { context with
          headerFileOfs := context.headerFileOfs.write (declarationText opts names.typeCls defn)
          cppFileOfs := context.cppFileOfs.write
            (definitionText opts names context.clsName defn context.nameId)
          nameId := nameIdAfter defn context.nameId }.Serves names fixtures 0 :=
        ⟨serves.typeCls, serves.typeClass, serves.proofMethod, serves.typeCmpMethod,
          serves.setupMethod, serves.teardownMethod, serves.indentLvl⟩
      rw [ASTVisitor.visitAll, run_verify_of_ok first, ih served header fresh
        fun defn' member => covered defn' (List.mem_cons_of_mem _ member)]
      simp only [declarationsText, definitionsText, nameIdAfterAll, OfStream.write_write]

theorem update_reopened (files : String → Option String) (header cpp : String)
    (first second : Option String) :
    Function.update (Function.update (Function.update (Function.update files header (some "")) cpp
        (some "")) header first) cpp second =
      Function.update (Function.update files header first) cpp second := by
  funext path
  by_cases isCpp : path = cpp <;> by_cases isHeader : path = header <;>
    simp [Function.update_apply, isCpp, isHeader]

/-- Visiting a group writes its two files. -/
theorem visitInferenceGroup_run {group : ASTInferenceGroup} {strict : Bool}
    (wellFormed : group.WellFormed strict) (idle : context.Idle)
    (headerOpens : opens (headerFilepath opts group) = true)
    (cppOpens : opens (cppFilepath opts group) = true)
    (covered : ∀ defn ∈ group.inferenceDefns, ∀ premise ∈ defn.premiseDefns,
      premise.hasWhileClause = true → group.DefinesFixtures) :
    ((visitor opts opens).visitInferenceGroup group).run context =
      .ok (true, synthesizeGroup opts context group) := by
  have environment : ∀ defn, (visitor opts opens).visitEnvironmentDefn defn = pure true := fun _ => by
    simp [ASTVisitor.visitEnvironmentDefn, visitor]
  have inferences := visitInferenceDefns_run opts opens group.inferenceDefns
    (openGroup_serves opts wellFormed idle) idle.headerFileIndentLvl idle.numPremisesProcessed covered
  have begun : ((visitor opts opens).previsitInferenceGroup group).run context =
      .ok (true, openGroup opts context group) :=
    previsitInferenceGroup_run opts opens wellFormed idle headerOpens cppOpens
  rw [ASTVisitor.visitInferenceGroup, run_verify_of_ok begun,
    ASTVisitor.visitAll_pure_true _ _ fun defn _ => environment defn, ASTVisitor.verify_pure_true,
    run_verify_of_ok inferences, ASTVisitor.verify_then_true]
  rw [synthesizeGroup, ← update_reopened]
  rfl

theorem visitInferenceGroups_run (groups : List ASTInferenceGroup) {strict : Bool}
    (wellFormed : ∀ group ∈ groups, group.WellFormed strict) (idle : context.Idle)
    (allOpen : ∀ path, opens path = true)
    (covered : ∀ group ∈ groups, ∀ defn ∈ group.inferenceDefns, ∀ premise ∈ defn.premiseDefns,
      premise.hasWhileClause = true → group.DefinesFixtures) :
    (ASTVisitor.visitAll (visitor opts opens).visitInferenceGroup groups).run context =
      .ok (true, groups.foldl (synthesizeGroup opts) context) := by
  induction groups generalizing context with
  | nil => rfl
  | cons group rest ih =>
      have first := visitInferenceGroup_run opts opens (wellFormed group (by simp)) idle
        (allOpen _) (allOpen _) (covered group (by simp))
      rw [ASTVisitor.visitAll, run_verify_of_ok first, List.foldl_cons]
      exact ih (fun group' member => wellFormed group' (List.mem_cons_of_mem _ member))
        (synthesizeGroup_idle opts idle group)
        fun group' member => covered group' (List.mem_cons_of_mem _ member)

/-- The context after the error code files were written. -/
def writeErrorCodeFiles (context : SynthesisContext) : SynthesisContext :=
  { context with
    files := Function.update (Function.update (Function.update context.files
        (outputFilepath opts errorCodeHeaderFilename) (some ""))
          (outputFilepath opts errorCodeHeaderFilename) (some errorCodeHeaderText))
        (outputFilepath opts errorCodeCppFilename) (some errorCodeCppText) }

theorem initializeAndSynthesizeErrorCodeFiles_run (allOpen : ∀ path, opens path = true) :
    (initializeAndSynthesizeErrorCodeFiles opts opens).run context =
      .ok (true, writeErrorCodeFiles opts context) := by
  simp only [initializeAndSynthesizeErrorCodeFiles, allOpen, if_true]
  rfl

theorem writeErrorCodeFiles_idle (idle : context.Idle) : (writeErrorCodeFiles opts context).Idle :=
  ⟨idle.header, idle.cpp, idle.headerFileIndentLvl, idle.cppFileIndentLvl, idle.numPremisesProcessed⟩

theorem visitModule_eq (module : ASTModule) : (visitor opts opens).visitModule module =
    ASTVisitor.visitAll (visitor opts opens).visitInferenceGroup module.inferenceGroups := by
  have idle : ∀ rest : Synth Bool, ASTVisitor.verify ((visitor opts opens).previsitModule module) rest =
      rest := ASTVisitor.verify_pure_true
  have last : ASTVisitor.verify ((visitor opts opens).postvisitModule module) (pure true) = pure true :=
    ASTVisitor.verify_pure_true _
  rw [ASTVisitor.visitModule, idle, last, ASTVisitor.verify_then_true]

end Walk

/-- A run that meets no missing key ends well, with every group synthesized. -/
theorem run_of_covered (opens : String → Bool) {context : SynthesisContext} {module : ASTModule}
    {strict : Bool} (wellFormed : module.WellFormed strict) (idle : context.Idle)
    (allOpen : ∀ path, opens path = true)
    (covered : ∀ group ∈ module.inferenceGroups, ∀ defn ∈ group.inferenceDefns,
      ∀ premise ∈ defn.premiseDefns, premise.hasWhileClause = true → group.DefinesFixtures) :
    ∃ final, (run opts opens module).run context = .ok (true, final) ∧
      final.files =
        (module.inferenceGroups.foldl (synthesizeGroup opts) (writeErrorCodeFiles opts context)).files := by
  have begun := writeErrorCodeFiles_idle opts idle
  have walked := visitInferenceGroups_run opts opens module.inferenceGroups wellFormed.groups begun
    allOpen covered
  rw [← visitModule_eq] at walked
  have ended := synthesizeGroups_idle opts begun module.inferenceGroups
  rw [run, run_bind_of_ok (initializeAndSynthesizeErrorCodeFiles_run opts opens allOpen), if_pos rfl,
    run_bind_of_ok walked]
  generalize module.inferenceGroups.foldl (synthesizeGroup opts) (writeErrorCodeFiles opts context) =
    last at ended ⊢
  -- Closing a closed stream only makes it bad.
  obtain ⟨_, _, _, ⟨header, _, _⟩, ⟨cpp, _, _⟩, _⟩ := last
  obtain rfl : header = none := ended.header
  obtain rfl : cpp = none := ended.cpp
  exact ⟨_, rfl, rfl⟩

end Synthesizer

end Snowlake
