import Mathlib.Algebra.Group.Nat.Defs
import Snowlake.AstUtils
import Snowlake.AstVisitor
import Snowlake.Sema.SemanticAnalyzer

/-! # The synthesizer

`src/Synthesizer.cpp` and the texts of `src/SynthesizerUtil.h`.  The synthesizer
is a visitor whose hooks write to two open files.  A missing key in
`envDefnMap.at` throws and a failed `ASSERT` aborts; both end the run with a
`Fault`.  Writing to an open file succeeds, opening one may fail.
-/

namespace Snowlake

namespace Synthesizer

structure Options where
  useException : Bool
  suppressAnnotationComments : Bool
  inputFilepath : String
  outputPath : String
  deriving Repr, DecidableEq

end Synthesizer

/-- What ends the program before `run` returns. -/
inductive Fault where
  /-- `std::out_of_range` of `envDefnMap.at(key)`. -/
  | outOfRange (key : StringType)
  /-- `abort()` of a failed `ASSERT`. -/
  | assertion
  deriving Repr, DecidableEq

/-- `typedef std::unordered_map<std::string, std::string> EnvDefnMap`. -/
abbrev EnvDefnMap := StringType → Option StringType

/-- `std::ofstream`: the open file, and what has been written to it. -/
structure OfStream where
  path : Option String := none
  good : Bool := true
  text : String := ""
  deriving Repr, DecidableEq

namespace OfStream

def write (ofs : OfStream) (text : String) : OfStream := { ofs with text := ofs.text ++ text }

theorem write_write (ofs : OfStream) (first second : String) :
    (ofs.write first).write second = ofs.write (first ++ second) := by
  simp only [write, String.append_assoc]

/-- `open(path, std::ofstream::out)`; it fails on a stream that is already open. -/
def openFile (opens : String → Bool) (ofs : OfStream) (path : String) : OfStream :=
  if ofs.path.isNone && opens path then ⟨some path, true, ""⟩ else { ofs with good := false }

end OfStream

/-- `InferenceGroupSynthesisContext`, with the member of its
`InferenceDefinitionSynthesisContext`, the process-wide counter of
`__getIncrementalInt`, the files on disk and the registered errors. -/
structure SynthesisContext where
  clsName : StringType := ""
  typeCls : StringType := ""
  envDefnMap : EnvDefnMap := fun _ => none
  headerFileOfs : OfStream := {}
  cppFileOfs : OfStream := {}
  headerFileIndentLvl : Nat := 0
  cppFileIndentLvl : Nat := 0
  nameId : UInt32 := 0
  numPremisesProcessed : UInt32 := 0
  incrementalInt : UInt64 := 1
  files : String → Option String := fun _ => none
  errors : List Diagnostic := []

/-- A computation of the synthesizer. -/
abbrev Synth := StateT SynthesisContext (Except Fault)

namespace Synthesizer

/-! ## Texts, `src/SynthesizerUtil.h` -/

def authoringCommentBlock : String :=
  "/**\n * Auto-generated by Snowlake compiler (version " ++ "0.1.2" ++ ").\n */"

def commentBlockBegin : String := "/**\n"

def commentBlockEnd : String := " */\n"

def defaultClassNamePrefix : String := "Inference"

def defaultErrorOutputParameterName : StringType := "err"

def errorCodeHeaderFilenameBase : String := "InferenceErrorDefn"

def errorCodeHeaderFilename : String := "InferenceErrorDefn.h"

def errorCodeCppFilename : String := "InferenceErrorDefn.cpp"

def errorCodeEnumDefinition : String :=
  "enum InferenceError\n" ++
  "\x7b\n" ++
  "    InferenceErrorInferredTypeMismatch = 0x01,\n" ++
  "    InferenceErrorTypeComparisonFailed,\n" ++
  "\x7d;\n" ++
  "\n" ++
  "class InferenceErrorCategory;\n" ++
  "extern const InferenceErrorCategory inference_error_category;"

def customErrorCategoryDefinition : String :=
  "class InferenceErrorCategory : public std::error_category\n" ++
  "\x7b\n" ++
  "    virtual const char* name() const except override \x7b\n" ++
  "        return \"Inference error\";\n" ++
  "    \x7d\n" ++
  "\n" ++
  "    virtual std::string message(int condition) const override \x7b\n" ++
  "        switch (condition) \x7b\n" ++
  "            case InferenceErrorInferredTypeMismatch:\n" ++
  "                return \"Inferred type does not match with expected.\";\n" ++
  "            case InferenceErrorTypeComparisonFailed:\n" ++
  "                return \"Type comparison failed.\";\n" ++
  "            default:\n" ++
  "                return \"Inference failed (unknown error).\";\n" ++
  "        \x7d\n" ++
  "    \x7d\n" ++
  "\x7d;\n" ++
  "\n" ++
  "const InferenceErrorCategory inference_error_category \x7b\x7d;"

def globalErrorCategoryInstanceName : String := "inference_error_category"

def setupComment : String := "// Type annotation setup."

def teardownComment : String := "// Type annotation teardown."

/-! ## What is streamed without reading the state -/

inductive DeductionTargetArraySynthesisMode where
  | asSingular
  | asArray
  | asRawPointerArray
  | asStdVector
  deriving Repr, DecidableEq

def renderIndentation (indentLvl : Nat) : String :=
  String.join (List.replicate indentLvl "    ")

def synthesizeArgumentList : List ASTInferenceArgument → String
  | [] => ""
  | [arg] => "const " ++ arg.typeName ++ "& " ++ arg.name
  | arg :: rest => "const " ++ arg.typeName ++ "& " ++ arg.name ++ ", " ++ synthesizeArgumentList rest

mutual
def synthesizeDeductionTarget (typeCls : StringType) :
    ASTDeductionTarget → DeductionTargetArraySynthesisMode → String
  | .singular name, _ => name
  | .array name (some size), .asArray => name ++ "[" ++ toString size.toNat ++ "]"
  | .array name none, .asArray => "*" ++ name
  | .array name _, .asRawPointerArray => "*" ++ name
  | .array name _, .asSingular => name
  | .array name _, .asStdVector => "std::vector<" ++ typeCls ++ ">" ++ " " ++ name
  | .computed name arguments, _ => name ++ "(" ++ synthesizeDeductionTargetArguments typeCls arguments ++ ")"

/-- The loop over the arguments of a computed target. -/
def synthesizeDeductionTargetArguments (typeCls : StringType) : List ASTDeductionTarget → String
  | [] => ""
  | [argument] => synthesizeDeductionTarget typeCls argument .asSingular
  | argument :: rest =>
      synthesizeDeductionTarget typeCls argument .asSingular ++ ", " ++
        synthesizeDeductionTargetArguments typeCls rest
end

def synthesizeDeductionTargetForDeclaration (typeCls : StringType) :
    ASTDeductionTarget → Except Fault String
  | .singular name => pure (typeCls ++ " " ++ synthesizeDeductionTarget typeCls (.singular name) .asStdVector)
  | .array name size => pure (synthesizeDeductionTarget typeCls (.array name size) .asStdVector)
  | .computed _ _ => throw .assertion

def synthesizeIdentifiable (identifiable : ASTIdentifiable) : String :=
  go identifiable.identifiers
where
  go : List ASTIdentifier → String
    | [] => ""
    | [identifier] => identifier
    | identifier :: rest => identifier ++ "." ++ go rest

/-- The functor `synthesizeEqualityOperator` names, without its type argument. -/
def equalityFunctor : EqualityOperator → String
  | .operatorEq => "std::equal_to"
  | .operatorNeq => "std::not_equal_to"
  | .operatorLt => "std::less"
  | .operatorLte => "std::less_equal"

def synthesizeEqualityOperator (typeCls : StringType) (oprt : EqualityOperator) : String :=
  equalityFunctor oprt ++ "<" ++ typeCls ++ ">()"

def renderCustomInclude (headerName : String) : String :=
  "#include \"" ++ headerName ++ ".h\"\n"

/-- `__renderSystemHeaderIncludes`. -/
def renderIncludes (headers : List String) : String :=
  String.join (headers.map fun header => "#include <" ++ header ++ ">\n")

/-- `c_str()`, as the functions that take a `const char*` read it: up to the first NUL. -/
def cString (text : StringType) : String :=
  String.ofList (text.toList.takeWhile (· != '\x00'))

variable (opts : Options)

def renderSystemHeaderIncludes : String :=
  renderIncludes (["cstdlib", "cstddef", "vector"] ++
    [if opts.useException then "exception" else "system_error"])

/-- The comment blocks of the source: one line of at most 1023 characters. -/
def renderCommentBlock (indentLvl : Nat) (text : String) : String :=
  renderIndentation indentLvl ++ commentBlockBegin ++
    renderIndentation indentLvl ++ " * " ++ snprintf 1024 text ++ "\n" ++
    renderIndentation indentLvl ++ commentBlockEnd

def renderInputSourceAnnotationComment : String :=
  if opts.suppressAnnotationComments then ""
  else renderCommentBlock 0 ("This file was synthesized from " ++ cString opts.inputFilepath)

def renderClassAnnotationComment (clsName : StringType) : String :=
  if opts.suppressAnnotationComments then ""
  else renderCommentBlock 0
    ("This class was synthesized from the \"" ++ cString clsName ++ "\" rules group.")

def renderInferenceDefinitionMethodAnnotationComment (inferenceDefnName : StringType)
    (indentLvl : Nat) : String :=
  if opts.suppressAnnotationComments then ""
  else renderCommentBlock indentLvl
    ("This method was synthesized from the \"" ++ cString inferenceDefnName ++ "\" inference definition.")

/-- The ordinal a premise comment spells, `th[MIN(nth, 4) - 1]` after the number.
Its number wraps to 0 only after `2 ^ 32` premises, where the source reads
outside of `th`. -/
def ordinal (nth : UInt32) : String :=
  toString nth.toNat ++
    (if nth = 1 then "st" else if nth = 2 then "nd" else if nth = 3 then "rd" else "th")

def premiseComment (nth : UInt32) : String :=
  "// " ++ snprintf 1024
    ("This corresponds to the " ++ ordinal nth ++ " premise rule in the inference definition.")

/-! ## The state -/

def writeHeader (text : String) : Synth Unit :=
  modify fun context => { context with headerFileOfs := context.headerFileOfs.write text }

def writeCpp (text : String) : Synth Unit :=
  modify fun context => { context with cppFileOfs := context.cppFileOfs.write text }

/-- `_context.envDefnMap.at(key)`. -/
def envDefnAt (key : StringType) : Synth StringType := do
  match (← get).envDefnMap key with
  | some value => pure value
  | none => throw (.outOfRange key)

/-- `ASSERT(expr)`. -/
def assert (expr : Bool) : Synth Unit :=
  if expr then pure () else throw .assertion

/-- `std::numeric_limits<size_t>::max()`. -/
def sizeMax : Nat := 2 ^ 64 - 1

def indentCppFile : Synth Unit := do
  assert ((← get).cppFileIndentLvl < sizeMax)
  modify fun context => { context with cppFileIndentLvl := context.cppFileIndentLvl + 1 }

def dedentCppFile : Synth Unit := do
  assert ((← get).cppFileIndentLvl ≥ 1)
  modify fun context => { context with cppFileIndentLvl := context.cppFileIndentLvl - 1 }

/-- `ScopedIndentationGuard` on the header file's level, around `body`. -/
def withHeaderIndentation (body : Synth Unit) : Synth Unit := do
  assert ((← get).headerFileIndentLvl < sizeMax)
  modify fun context => { context with headerFileIndentLvl := context.headerFileIndentLvl + 1 }
  body
  assert ((← get).headerFileIndentLvl ≥ 1)
  modify fun context => { context with headerFileIndentLvl := context.headerFileIndentLvl - 1 }

/-- `ScopedIndentationGuard` on the .cpp file's level, around `body`. -/
def withCppIndentation (body : Synth Unit) : Synth Unit := do
  indentCppFile
  body
  dedentCppFile

def renderIndentationInHeaderFile : Synth Unit := do
  writeHeader (renderIndentation (← get).headerFileIndentLvl)

def renderIndentationInCppFile : Synth Unit := do
  writeCpp (renderIndentation (← get).cppFileIndentLvl)

/-- `__getNextVarName`. -/
def getNextVarName : Synth StringType := do
  let nameId := (← get).nameId
  modify fun context => { context with nameId := nameId + 1 }
  return "var" ++ toString nameId.toNat

/-- `__getIncrementalInt`. -/
def getIncrementalInt : Synth UInt64 := do
  let val := (← get).incrementalInt
  modify fun context => { context with incrementalInt := val + 1 }
  return val

def handleErrorWithMessage (msg : String) : Synth Unit :=
  modify fun context => { context with
    errors := context.errors ++ [⟨8, msg, "synthesis error", "invalid output"⟩] }

/-! ## The premises -/

def renderInferencePremiseAnnotationComment : Synth Unit := do
  if opts.suppressAnnotationComments then
    return ()
  renderIndentationInCppFile
  writeCpp (premiseComment ((← get).numPremisesProcessed + 1))
  writeCpp "\n"

def renderErrorHandling : Synth Unit := do
  let typeCls ← envDefnAt envnDefnKeyForTypeClass
  renderIndentationInCppFile
  writeCpp ("*" ++ defaultErrorOutputParameterName ++ " = std::error_code(" ++ "0" ++ ", " ++
    globalErrorCategoryInstanceName ++ ");\n")
  renderIndentationInCppFile
  writeCpp ("return " ++ typeCls ++ "();\n")

def renderTypeAnnotationSetupTeardownFixture (source : ASTIdentifiable)
    (deductionTarget : ASTDeductionTarget) (methodName : StringType) : Synth Unit := do
  renderIndentationInCppFile
  writeCpp (methodName ++ "(" ++ synthesizeIdentifiable source ++ ", " ++
    synthesizeDeductionTarget (← get).typeCls deductionTarget .asSingular ++ ");\n")

/-- The emitted `if`: `lhs` and `rhs` are compared, and the failing branch returns. -/
def renderComparison (typeCmpMethod lhs rhs functor : String) : Synth Unit := do
  renderIndentationInCppFile
  writeCpp ("if (!" ++ typeCmpMethod ++ "(" ++ lhs ++ ", " ++ rhs ++ ", " ++ functor ++ ")" ++
    ") \x7b\n")
  withCppIndentation renderErrorHandling
  renderIndentationInCppFile
  writeCpp "\x7d\n"

def synthesizeInferencePremiseDefnWithWhileClause (source : ASTIdentifiable)
    (deductionTarget : ASTDeductionTarget) (visitWhileClause : Synth Unit) : Synth Unit := do
  writeCpp "\n"
  let setupMethod ← envDefnAt envnDefnKeyForTypeAnnotationSetupMethod
  renderIndentationInCppFile
  writeCpp (setupComment ++ "\n")
  renderTypeAnnotationSetupTeardownFixture source deductionTarget setupMethod
  writeCpp "\n"
  visitWhileClause
  let teardownMethod ← envDefnAt envnDefnKeyForTypeAnnotationTeardownMethod
  renderIndentationInCppFile
  writeCpp (teardownComment ++ "\n")
  renderTypeAnnotationSetupTeardownFixture source deductionTarget teardownMethod
  writeCpp "\n"

def synthesizeInferencePremiseDefnWithoutWhileClause (source : ASTIdentifiable)
    (deductionTarget : ASTDeductionTarget) : Synth Unit := do
  let proofMethod ← envDefnAt envnDefnKeyForProofMethod
  let typeCls := (← get).typeCls
  if deductionTarget.isComputed then
    let typeCmpMethod ← envDefnAt envnDefnKeyForTypeCmpMethod
    let name1 ← getNextVarName
    renderIndentationInCppFile
    writeCpp (typeCls ++ " " ++ name1 ++ " = " ++
      synthesizeDeductionTarget typeCls deductionTarget .asSingular ++ ";\n")
    let name2 ← getNextVarName
    renderIndentationInCppFile
    writeCpp (typeCls ++ " " ++ name2 ++ " = " ++
      proofMethod ++ "(" ++ synthesizeIdentifiable source ++ ")" ++ ";\n")
    renderComparison typeCmpMethod name1 name2 "std::equal_to<>()"
  else
    renderIndentationInCppFile
    writeCpp (← synthesizeDeductionTargetForDeclaration typeCls deductionTarget)
    writeCpp (" = " ++ proofMethod ++ "(" ++ synthesizeIdentifiable source ++ ")" ++ ";\n")
  writeCpp "\n"

/-- `previsit(const ASTInferenceEqualityDefn&)`. -/
def previsitInferenceEqualityDefn (premiseDefn : ASTInferenceEqualityDefn) : Synth Bool := do
  let typeCmpMethod ← envDefnAt envnDefnKeyForTypeCmpMethod
  let typeCls := (← get).typeCls
  let lhs := synthesizeDeductionTarget typeCls premiseDefn.lhs .asSingular
  let rhs := synthesizeDeductionTarget typeCls premiseDefn.rhs .asSingular
  let functor := synthesizeEqualityOperator typeCls premiseDefn.oprt
  match premiseDefn.rangeClause with
  | some rangeClause =>
      renderIndentationInCppFile
      writeCpp ("for (size_t i = " ++ toString rangeClause.lhsIdx.toNat ++
        ", size_t j = " ++ toString rangeClause.rhsIdx.toNat ++ "; i < " ++
        synthesizeDeductionTarget typeCls rangeClause.deductionTarget .asSingular ++
        ".size(); ++i, ++j) \x7b\n")
      indentCppFile
      renderComparison typeCmpMethod (lhs ++ "[" ++ "i" ++ "]") (rhs ++ "[" ++ "j" ++ "]") functor
      dedentCppFile
      renderIndentationInCppFile
      writeCpp ("\x7d\n" ++ "\n")
  | none =>
      renderComparison typeCmpMethod lhs rhs functor
  return true

def postvisitInferencePremiseDefn (_ : ASTInferencePremiseDefn) : Synth Bool := do
  modify fun context => { context with numPremisesProcessed := context.numPremisesProcessed + 1 }
  return true

mutual
/-- `previsit(const ASTInferencePremiseDefn&)`. -/
def previsitInferencePremiseDefn : InferencePremiseOf ASTPremiseDefn → Synth Bool
  | ⟨source, target, none⟩ => do
      renderInferencePremiseAnnotationComment opts
      synthesizeInferencePremiseDefnWithoutWhileClause source target
      return true
  | ⟨source, target, some whileClause⟩ => do
      renderInferencePremiseAnnotationComment opts
      synthesizeInferencePremiseDefnWithWhileClause source target (visitWhileClause whileClause)
      return true

/-- The loop over a while clause, which drops what `visit` answers. -/
def visitWhileClause : List ASTPremiseDefn → Synth Unit
  | [] => pure ()
  | defn :: rest => do
      let _ ← visitNestedPremiseDefn defn
      visitWhileClause rest

/-- `visit(const ASTPremiseDefn&)` of this visitor, see `visitPremiseDefn_eq`. -/
def visitNestedPremiseDefn : ASTPremiseDefn → Synth Bool
  | .inferencePremise defn =>
      ASTVisitor.verify (previsitInferencePremiseDefn defn) (postvisitInferencePremiseDefn defn)
  | .inferenceEquality defn => previsitInferenceEqualityDefn defn
end

/-- `previsit(const ASTPropositionDefn&)`. -/
def previsitPropositionDefn (propositionDefn : ASTPropositionDefn) : Synth Bool := do
  renderIndentationInCppFile
  writeCpp ("return " ++
    synthesizeDeductionTarget (← get).typeCls propositionDefn.target .asArray ++ ";\n")
  return true

/-! ## Inference definitions and groups -/

/-- `previsit(const ASTInferenceDefn&)`. -/
def previsitInferenceDefn (inferenceDefn : ASTInferenceDefn) : Synth Bool := do
  withHeaderIndentation do
    writeHeader (renderInferenceDefinitionMethodAnnotationComment opts inferenceDefn.name
      (← get).headerFileIndentLvl)
    renderIndentationInHeaderFile
    writeHeader ((← get).typeCls ++ " " ++ inferenceDefn.name ++ "(" ++
      synthesizeArgumentList inferenceDefn.arguments ++
      (if opts.useException then "" else ", std::error_code*") ++ ");\n\n")
  writeCpp "\n"
  writeCpp (renderInferenceDefinitionMethodAnnotationComment opts inferenceDefn.name 0)
  let context ← get
  writeCpp (context.typeCls ++ "\n" ++ context.clsName ++ "::" ++ inferenceDefn.name ++ "(" ++
    synthesizeArgumentList inferenceDefn.arguments ++
    (if opts.useException then ""
      else ", std::error_code* " ++ defaultErrorOutputParameterName) ++ ")\n\x7b\n")
  indentCppFile
  return true

/-- `postvisit(const ASTInferenceDefn&)`. -/
def postvisitInferenceDefn (_ : ASTInferenceDefn) : Synth Bool := do
  dedentCppFile
  writeCpp "\x7d\n"
  modify fun context => { context with numPremisesProcessed := 0 }
  return true

/-- `getEnvnDefnMapFromInferenceGroup`: the last definition of a field wins. -/
def getEnvnDefnMap (environmentDefns : List ASTEnvironmentDefn) : EnvDefnMap :=
  environmentDefns.foldl (fun envDefnMap envnDefn =>
    Function.update envDefnMap envnDefn.field (some envnDefn.value)) fun _ => none

def getClassNameFromEnvDefn (envDefnMap : EnvDefnMap) : Synth StringType := do
  match envDefnMap envnDefnKeyForClass with
  | some value => pure value
  | none => return snprintf 16 (defaultClassNamePrefix ++ toString (← getIncrementalInt).toNat)

/-- The path of an output file. -/
def outputFilepath (filename : String) : String :=
  (if opts.outputPath ≠ "" ∧ opts.outputPath.toList.getLast? ≠ some '/'
    then opts.outputPath ++ "/" else opts.outputPath) ++ filename

/-- `envDefnMap.at(key)` on a map that is not yet part of the state. -/
def atKey (envDefnMap : EnvDefnMap) (key : StringType) : Synth StringType :=
  match envDefnMap key with
  | some value => pure value
  | none => throw (.outOfRange key)

variable (opens : String → Bool)

/-- A file opened for writing is emptied on disk. -/
def truncate (files : String → Option String) (ofs : OfStream) : String → Option String :=
  match ofs.path with
  | some path => Function.update files path (some "")
  | none => files

def openHeaderFile (path : String) : Synth Bool := do
  modify fun context => { context with headerFileOfs := context.headerFileOfs.openFile opens path }
  if (← get).headerFileOfs.good then
    modify fun context => { context with files := truncate context.files context.headerFileOfs }
    return true
  handleErrorWithMessage "Failed to create output .h file"
  return false

def openCppFile (path : String) : Synth Bool := do
  modify fun context => { context with cppFileOfs := context.cppFileOfs.openFile opens path }
  if (← get).cppFileOfs.good then
    modify fun context => { context with files := truncate context.files context.cppFileOfs }
    return true
  handleErrorWithMessage "Failed to create output .cpp file"
  return false

def headerPreamble (clsName : StringType) : String :=
  authoringCommentBlock ++ "\n\n" ++ renderInputSourceAnnotationComment opts ++ "\n" ++
    "#pragma once\n\n" ++ renderSystemHeaderIncludes opts ++ "\n" ++
    renderClassAnnotationComment opts clsName ++ "class " ++ clsName ++ "\n\x7b\npublic:\n"

def cppPreamble (clsName : StringType) : String :=
  authoringCommentBlock ++ "\n\n" ++ renderInputSourceAnnotationComment opts ++ "\n" ++
    renderCustomInclude (cString clsName) ++ renderCustomInclude errorCodeHeaderFilenameBase

/-- `previsit(const ASTInferenceGroup&)`. -/
def previsitInferenceGroup (inferenceGroup : ASTInferenceGroup) : Synth Bool := do
  let envDefnMap := getEnvnDefnMap inferenceGroup.environmentDefns
  let clsName ← getClassNameFromEnvDefn envDefnMap
  let typeCls ← atKey envDefnMap envnDefnKeyForTypeClass
  if ← openHeaderFile opens (outputFilepath opts (clsName ++ ".h")) then
    if ← openCppFile opens (outputFilepath opts (clsName ++ ".cpp")) then
      modify fun context => { context with
        clsName := clsName, typeCls := typeCls, envDefnMap := envDefnMap }
      writeHeader (headerPreamble opts clsName)
      writeCpp (cppPreamble opts clsName)
      return true
    else
      return false
  else
    return false

/-- Closing a stream leaves its file with what was written to it. -/
def closeHeaderFile : Synth Unit :=
  modify fun context =>
    match context.headerFileOfs.path with
    | some path => { context with
        files := Function.update context.files path (some context.headerFileOfs.text)
        headerFileOfs := { context.headerFileOfs with path := none } }
    | none => { context with headerFileOfs := { context.headerFileOfs with good := false } }

def closeCppFile : Synth Unit :=
  modify fun context =>
    match context.cppFileOfs.path with
    | some path => { context with
        files := Function.update context.files path (some context.cppFileOfs.text)
        cppFileOfs := { context.cppFileOfs with path := none } }
    | none => { context with cppFileOfs := { context.cppFileOfs with good := false } }

/-- `postvisit(const ASTInferenceGroup&)`. -/
def postvisitInferenceGroup (_ : ASTInferenceGroup) : Synth Bool := do
  writeHeader "\x7d;\n"
  if (← get).headerFileOfs.good then
    closeHeaderFile
  if (← get).cppFileOfs.good then
    closeCppFile
  return true

/-! ## The visitor -/

/-- `SynthesizerImpl` as a visitor. -/
def visitor : ASTVisitor Synth where
  previsitInferenceGroup := previsitInferenceGroup opts opens
  postvisitInferenceGroup := postvisitInferenceGroup
  previsitInferenceDefn := previsitInferenceDefn opts
  postvisitInferenceDefn := postvisitInferenceDefn
  previsitInferencePremiseDefn := previsitInferencePremiseDefn opts
  postvisitInferencePremiseDefn := postvisitInferencePremiseDefn
  previsitInferenceEqualityDefn := previsitInferenceEqualityDefn
  previsitPropositionDefn := previsitPropositionDefn

def errorCodeHeaderText : String :=
  authoringCommentBlock ++ "\n" ++ "#pragma once\n\n" ++ errorCodeEnumDefinition ++ "\n"

def errorCodeCppText : String :=
  authoringCommentBlock ++ "\n" ++ renderCustomInclude errorCodeHeaderFilenameBase ++
    renderIncludes ["string", "system_error"] ++ "\n" ++ customErrorCategoryDefinition ++ "\n"

/-- `initializeAndSynthesizeErrorCodeFiles`. -/
def initializeAndSynthesizeErrorCodeFiles : Synth Bool := do
  let headerPath := outputFilepath opts errorCodeHeaderFilename
  let cppPath := outputFilepath opts errorCodeCppFilename
  if opens headerPath then
    modify fun context => { context with files := Function.update context.files headerPath (some "") }
    if opens cppPath then
      modify fun context => { context with
        files := Function.update (Function.update context.files headerPath (some errorCodeHeaderText))
          cppPath (some errorCodeCppText) }
      return true
    else
      return false
  else
    return false

/-- `Synthesizer::run`, from the value of the process-wide counter and the files
there are.  The destructor of the context closes what is still open. -/
def run (module : ASTModule) : Synth Bool := do
  if ← initializeAndSynthesizeErrorCodeFiles opts opens then
    let result ← (visitor opts opens).visitModule module
    closeHeaderFile
    closeCppFile
    return result
  else
    return false

theorem visitDeductionTarget_eq (target : ASTDeductionTarget) :
    (visitor opts opens).visitDeductionTarget target = pure true := by
  cases target <;> simp [ASTVisitor.visitDeductionTarget, ASTVisitor.visitDeductionTargetValue, visitor]

/-- The visit a while clause makes of its premises is the visitor's. -/
theorem visitPremiseDefn_eq :
    (visitor opts opens).visitPremiseDefn = visitNestedPremiseDefn opts := by
  funext premise
  cases premise with
  | inferencePremise defn =>
      simp only [ASTVisitor.visitPremiseDefn, ASTVisitor.visitInferencePremiseDefn,
        ASTVisitor.verify_then_true, visitNestedPremiseDefn]
      rfl
  | inferenceEquality defn =>
      simp only [ASTVisitor.visitPremiseDefn, ASTVisitor.visitInferenceEqualityDefn,
        ASTVisitor.verify_then_true, visitDeductionTarget_eq, ASTVisitor.verify_pure_true,
        visitNestedPremiseDefn]
      exact ASTVisitor.verify_then_true _

end Synthesizer

end Snowlake
