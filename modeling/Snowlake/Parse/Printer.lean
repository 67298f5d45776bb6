import Snowlake.Parse.Grammar
import Snowlake.Parse.Rendering

/-! # Printing

The tokens of every node, after the productions of the grammar, and which nodes
they are for: names must be identifiers, integers fit a `long`, and every
identifiable has a component.
-/

namespace Snowlake

open Parsing

variable {α : Type}

def AllWritable (tokens : List Token) : Prop := ∀ token ∈ tokens, token.Writable

@[simp] theorem allWritable_nil : AllWritable [] ↔ True := iff_true_intro nofun

@[simp] theorem allWritable_cons {token : Token} {tokens : List Token} :
    AllWritable (token :: tokens) ↔ token.Writable ∧ AllWritable tokens := List.forall_mem_cons

@[simp] theorem allWritable_append {left right : List Token} :
    AllWritable (left ++ right) ↔ AllWritable left ∧ AllWritable right := List.forall_mem_append

theorem allWritable_flatMap {print : α → List Token} {values : List α}
    (printed : ∀ value ∈ values, AllWritable (print value)) : AllWritable (values.flatMap print) :=
  List.forall_mem_flatMap.mpr printed

theorem allWritable_join {separator : Token} {print : α → List Token} {values : List α}
    (between : separator.Writable) (printed : ∀ value ∈ values, AllWritable (print value)) :
    AllWritable (join separator print values) := forall_mem_join between printed

/-! ## Targets -/

namespace ASTDeductionTarget

mutual
def tokens : ASTDeductionTarget → List Token
  | .singular name => [.identifier name]
  | .array name none => [.identifier name, .lbracket, .rbracket]
  | .array name (some size) => [.identifier name, .lbracket, .integerLiteral size, .rbracket]
  | .computed name arguments => .identifier name :: .lparen :: (listTokens arguments ++ [.rparen])

/-- `tokens` of a list of targets, with commas. -/
def listTokens : List ASTDeductionTarget → List Token
  | [] => []
  | target :: targets => tokens target ++ behindTokens targets

/-- `tokens` of targets that follow another. -/
def behindTokens : List ASTDeductionTarget → List Token
  | [] => []
  | target :: targets => .comma :: (tokens target ++ behindTokens targets)
end

mutual
def Writable : ASTDeductionTarget → Prop
  | .singular name => IsIdentifier name
  | .array name none => IsIdentifier name
  | .array name (some size) => IsIdentifier name ∧ IsIntegerLiteral size
  | .computed name arguments => IsIdentifier name ∧ ListWritable arguments

def ListWritable : List ASTDeductionTarget → Prop
  | [] => True
  | target :: targets => Writable target ∧ ListWritable targets
end

mutual
instance decidableWritable : ∀ target : ASTDeductionTarget, Decidable target.Writable
  | .singular name => inferInstanceAs (Decidable (IsIdentifier name))
  | .array name none => inferInstanceAs (Decidable (IsIdentifier name))
  | .array name (some size) => inferInstanceAs (Decidable (IsIdentifier name ∧ IsIntegerLiteral size))
  | .computed name arguments =>
      have := decidableListWritable arguments
      inferInstanceAs (Decidable (IsIdentifier name ∧ ListWritable arguments))

instance decidableListWritable : ∀ targets : List ASTDeductionTarget, Decidable (ListWritable targets)
  | [] => inferInstanceAs (Decidable True)
  | target :: targets =>
      have := decidableWritable target
      have := decidableListWritable targets
      inferInstanceAs (Decidable (target.Writable ∧ ListWritable targets))
end

theorem behindTokens_eq (targets : List ASTDeductionTarget) :
    behindTokens targets = targets.flatMap fun target => .comma :: tokens target := by
  induction targets with
  | nil => rfl
  | cons target targets ih => simp [behindTokens, ih]

theorem listTokens_eq (targets : List ASTDeductionTarget) :
    listTokens targets = join .comma tokens targets := by
  cases targets with
  | nil => rfl
  | cons target targets => rw [listTokens, behindTokens_eq, join]

mutual
/-- The tokens of a target derive it. -/
theorem derives : ∀ target : ASTDeductionTarget, Grammar.DeductionTarget target.tokens target
  | .singular name => .singular name
  | .array name none => .array name
  | .array name (some size) => .arrayOfSize name size
  | .computed name [] => .computed name
  | .computed name (first :: rest) => by
      rw [tokens, listTokens_eq]
      exact .computedOf (.join (List.cons_ne_nil _ _) (derives_list (first :: rest)))

theorem derives_list : ∀ (targets : List ASTDeductionTarget), ∀ target ∈ targets,
    Grammar.DeductionTarget target.tokens target
  | [], _, member => nomatch member
  | first :: rest, target, member => by
      rcases List.mem_cons.mp member with same | inRest
      · rw [same]
        exact derives first
      · exact derives_list rest target inRest
end

mutual
theorem tokens_writable : ∀ {target : ASTDeductionTarget}, target.Writable →
    AllWritable target.tokens
  | .singular name, writable => by simpa [tokens, Token.Writable, Writable] using writable
  | .array name none, writable => by simpa [tokens, Token.Writable, Writable] using writable
  | .array name (some size), writable => by simpa [tokens, Token.Writable, Writable] using writable
  | .computed name arguments, writable => by
      have list := listTokens_writable writable.2
      simpa [tokens, Token.Writable, writable.1] using list

theorem listTokens_writable : ∀ {targets : List ASTDeductionTarget}, ListWritable targets →
    AllWritable (listTokens targets)
  | [], _ => nofun
  | target :: targets, writable => by
      rw [listTokens, allWritable_append]
      exact ⟨tokens_writable writable.1, behindTokens_writable writable.2⟩

theorem behindTokens_writable : ∀ {targets : List ASTDeductionTarget}, ListWritable targets →
    AllWritable (behindTokens targets)
  | [], _ => nofun
  | target :: targets, writable => by
      rw [behindTokens, allWritable_cons, allWritable_append]
      exact ⟨trivial, tokens_writable writable.1, behindTokens_writable writable.2⟩
end

end ASTDeductionTarget

def ASTPropositionDefn.tokens (defn : ASTPropositionDefn) : List Token :=
  .keywordProposition :: .colon :: (defn.target.tokens ++ [.semicolon])

def ASTPropositionDefn.Writable (defn : ASTPropositionDefn) : Prop := defn.target.Writable

instance (defn : ASTPropositionDefn) : Decidable defn.Writable :=
  inferInstanceAs (Decidable defn.target.Writable)

theorem ASTPropositionDefn.derives (defn : ASTPropositionDefn) :
    Grammar.PropositionDefn defn.tokens defn := .mk defn.target.derives

theorem ASTPropositionDefn.tokens_writable {defn : ASTPropositionDefn} (writable : defn.Writable) :
    AllWritable defn.tokens := by
  simpa [tokens, Token.Writable] using
    ASTDeductionTarget.tokens_writable writable

/-! ## Premises -/

def ASTIdentifiable.tokens (identifiable : ASTIdentifiable) : List Token :=
  join .dot (fun name => [.identifier name]) identifiable.identifiers

@[mk_iff] structure ASTIdentifiable.Writable (identifiable : ASTIdentifiable) : Prop where
  nonempty : identifiable.identifiers ≠ []
  identifiers : ∀ name ∈ identifiable.identifiers, IsIdentifier name

instance (identifiable : ASTIdentifiable) : Decidable identifiable.Writable := decidable_of_iff' _ (ASTIdentifiable.writable_iff _)

theorem ASTIdentifiable.derives {identifiable : ASTIdentifiable} (writable : identifiable.Writable) :
    Grammar.Identifiable identifiable.tokens identifiable :=
  .join writable.nonempty fun name _ => .mk name

theorem ASTIdentifiable.tokens_writable {identifiable : ASTIdentifiable}
    (writable : identifiable.Writable) : AllWritable identifiable.tokens :=
  allWritable_join trivial fun name member => by
    simpa [Token.Writable] using writable.identifiers name member

def EqualityOperator.token : EqualityOperator → Token
  | .operatorEq => .operatorEq
  | .operatorNeq => .operatorNeq
  | .operatorLt => .operatorLt
  | .operatorLte => .operatorLte

theorem EqualityOperator.derives (oprt : EqualityOperator) :
    Grammar.EqualityOperator [oprt.token] oprt := by
  cases oprt <;> constructor

theorem EqualityOperator.token_writable (oprt : EqualityOperator) : oprt.token.Writable := by
  cases oprt <;> trivial

def ASTRangeClause.tokens (range : ASTRangeClause) : List Token :=
  .keywordInrange :: .integerLiteral range.lhsIdx :: .ellipsis :: .integerLiteral range.rhsIdx ::
    .ellipsis :: range.deductionTarget.tokens

@[mk_iff] structure ASTRangeClause.Writable (range : ASTRangeClause) : Prop where
  lhsIdx : IsIntegerLiteral range.lhsIdx
  rhsIdx : IsIntegerLiteral range.rhsIdx
  deductionTarget : range.deductionTarget.Writable

instance (range : ASTRangeClause) : Decidable range.Writable := decidable_of_iff' _ (ASTRangeClause.writable_iff _)

theorem ASTRangeClause.derives (range : ASTRangeClause) : Grammar.RangeClause range.tokens range :=
  .mk range.deductionTarget.derives

theorem ASTRangeClause.tokens_writable {range : ASTRangeClause} (writable : range.Writable) :
    AllWritable range.tokens := by
  simp only [tokens, allWritable_cons]
  exact ⟨trivial, writable.lhsIdx, trivial, writable.rhsIdx, trivial,
    ASTDeductionTarget.tokens_writable writable.deductionTarget⟩

namespace ASTInferenceEqualityDefn

def tokens (defn : ASTInferenceEqualityDefn) : List Token :=
  defn.lhs.tokens ++ ([defn.oprt.token] ++ (defn.rhs.tokens ++
    match defn.rangeClause with
    | none => [.semicolon]
    | some range => range.tokens ++ [.semicolon]))

@[mk_iff] structure Writable (defn : ASTInferenceEqualityDefn) : Prop where
  lhs : defn.lhs.Writable
  rhs : defn.rhs.Writable
  rangeClause : ∀ range ∈ defn.rangeClause, range.Writable

instance (defn : ASTInferenceEqualityDefn) : Decidable defn.Writable := decidable_of_iff' _ (writable_iff _)

theorem derives : ∀ defn : ASTInferenceEqualityDefn, Grammar.PremiseTypeEqualityDefn defn.tokens defn
  | ⟨lhs, rhs, oprt, none⟩ => .plain lhs.derives oprt.derives rhs.derives
  | ⟨lhs, rhs, oprt, some range⟩ => .ranged lhs.derives oprt.derives rhs.derives range.derives

theorem tokens_writable : ∀ {defn : ASTInferenceEqualityDefn}, defn.Writable →
    AllWritable defn.tokens
  | ⟨_, _, oprt, none⟩, writable => by
      simp only [tokens, allWritable_append, allWritable_cons, allWritable_nil, and_true]
      exact ⟨ASTDeductionTarget.tokens_writable writable.lhs, oprt.token_writable,
        ASTDeductionTarget.tokens_writable writable.rhs, trivial⟩
  | ⟨_, _, oprt, some range⟩, writable => by
      simp only [tokens, allWritable_append, allWritable_cons, allWritable_nil, and_true]
      exact ⟨ASTDeductionTarget.tokens_writable writable.lhs, oprt.token_writable,
        ASTDeductionTarget.tokens_writable writable.rhs,
        ASTRangeClause.tokens_writable (writable.rangeClause range rfl), trivial⟩

end ASTInferenceEqualityDefn

namespace ASTPremiseDefn

mutual
def tokens : ASTPremiseDefn → List Token
  | .inferencePremise ⟨source, target, none⟩ =>
      source.tokens ++ .colon :: (target.tokens ++ [.semicolon])
  | .inferencePremise ⟨source, target, some body⟩ =>
      source.tokens ++ .colon :: (target.tokens ++
        ((.keywordWhile :: .lbrace :: (listTokens body ++ [.rbrace])) ++ [.semicolon]))
  | .inferenceEquality defn => defn.tokens

/-- `tokens` of a list of premises. -/
def listTokens : List ASTPremiseDefn → List Token
  | [] => []
  | head :: tail => tokens head ++ listTokens tail
end

mutual
def Writable : ASTPremiseDefn → Prop
  | .inferencePremise ⟨source, target, none⟩ => source.Writable ∧ target.Writable
  | .inferencePremise ⟨source, target, some body⟩ =>
      source.Writable ∧ target.Writable ∧ ListWritable body
  | .inferenceEquality defn => defn.Writable

def ListWritable : List ASTPremiseDefn → Prop
  | [] => True
  | head :: tail => Writable head ∧ ListWritable tail
end

mutual
instance decidableWritable : ∀ defn : ASTPremiseDefn, Decidable defn.Writable
  | .inferencePremise ⟨source, target, none⟩ =>
      inferInstanceAs (Decidable (source.Writable ∧ target.Writable))
  | .inferencePremise ⟨source, target, some body⟩ =>
      have := decidableListWritable body
      inferInstanceAs (Decidable (source.Writable ∧ target.Writable ∧ ListWritable body))
  | .inferenceEquality defn => inferInstanceAs (Decidable defn.Writable)

instance decidableListWritable : ∀ defns : List ASTPremiseDefn, Decidable (ListWritable defns)
  | [] => inferInstanceAs (Decidable True)
  | head :: tail =>
      have := decidableWritable head
      have := decidableListWritable tail
      inferInstanceAs (Decidable (head.Writable ∧ ListWritable tail))
end

mutual
theorem derives : ∀ {defn : ASTPremiseDefn}, defn.Writable → Grammar.PremiseDefn defn.tokens defn
  | .inferencePremise ⟨source, target, none⟩, writable => by
      obtain ⟨isSource, -⟩ := writable
      exact .inferencePremise (.plain (ASTIdentifiable.derives isSource) target.derives)
  | .inferencePremise ⟨source, target, some body⟩, writable => by
      obtain ⟨isSource, -, isBody⟩ := writable
      exact .inferencePremise
        (.whileLoop (ASTIdentifiable.derives isSource) target.derives (.mk (derives_list isBody)))
  | .inferenceEquality defn, _ => .inferenceEquality defn.derives

theorem derives_list : ∀ {defns : List ASTPremiseDefn}, ListWritable defns →
    Grammar.PremiseDefnList (listTokens defns) defns
  | [], _ => .nil
  | _ :: _, writable => .cons (derives writable.1) (derives_list writable.2)
end

mutual
theorem tokens_writable : ∀ {defn : ASTPremiseDefn}, defn.Writable →
    AllWritable defn.tokens
  | .inferencePremise ⟨source, target, none⟩, writable => by
      obtain ⟨isSource, isTarget⟩ := writable
      simp only [tokens, allWritable_append, allWritable_cons, allWritable_nil, and_true]
      exact ⟨ASTIdentifiable.tokens_writable isSource, trivial,
        ASTDeductionTarget.tokens_writable isTarget, trivial⟩
  | .inferencePremise ⟨source, target, some body⟩, writable => by
      obtain ⟨isSource, isTarget, isBody⟩ := writable
      simp only [tokens, allWritable_append, allWritable_cons, allWritable_nil, and_true]
      exact ⟨ASTIdentifiable.tokens_writable isSource, trivial,
        ASTDeductionTarget.tokens_writable isTarget,
        ⟨trivial, trivial, listTokens_writable isBody, trivial⟩, trivial⟩
  | .inferenceEquality defn, writable => ASTInferenceEqualityDefn.tokens_writable writable

theorem listTokens_writable : ∀ {defns : List ASTPremiseDefn}, ListWritable defns →
    AllWritable (listTokens defns)
  | [], _ => nofun
  | _ :: _, writable => allWritable_append.mpr
      ⟨tokens_writable writable.1, listTokens_writable writable.2⟩
end

end ASTPremiseDefn

/-! ## Inferences -/

def ASTInferenceArgument.tokens (argument : ASTInferenceArgument) : List Token :=
  [.identifier argument.name, .colon, .identifier argument.typeName]

@[mk_iff] structure ASTInferenceArgument.Writable (argument : ASTInferenceArgument) : Prop where
  name : IsIdentifier argument.name
  typeName : IsIdentifier argument.typeName

instance (argument : ASTInferenceArgument) : Decidable argument.Writable := decidable_of_iff' _ (ASTInferenceArgument.writable_iff _)

def ASTGlobalDecl.tokens (decl : ASTGlobalDecl) : List Token := [.identifier decl.name]

def ASTGlobalDecl.Writable (decl : ASTGlobalDecl) : Prop := IsIdentifier decl.name

instance (decl : ASTGlobalDecl) : Decidable decl.Writable :=
  inferInstanceAs (Decidable (IsIdentifier decl.name))

namespace ASTInferenceDefn

/-- Without globals the word for them is left out. -/
def globalTokens : List ASTGlobalDecl → List Token
  | [] => []
  | decls => .keywordGlobals :: .colon :: .lbracket ::
      (join .comma ASTGlobalDecl.tokens decls ++ [.rbracket])

def argumentTokens (arguments : List ASTInferenceArgument) : List Token :=
  .keywordArguments :: .colon :: .lbracket ::
    (join .comma ASTInferenceArgument.tokens arguments ++ [.rbracket])

def premiseTokens (premises : List ASTPremiseDefn) : List Token :=
  .keywordPremises :: .colon :: .lbracket :: (ASTPremiseDefn.listTokens premises ++ [.rbracket])

def tokens (defn : ASTInferenceDefn) : List Token :=
  .keywordInference :: .identifier defn.name :: .lbrace :: (globalTokens defn.globalDecls ++
    (argumentTokens defn.arguments ++ (premiseTokens defn.premiseDefns ++
      (defn.propositionDefn.tokens ++ [.rbrace]))))

@[mk_iff] structure Writable (defn : ASTInferenceDefn) : Prop where
  name : IsIdentifier defn.name
  globalDecls : ∀ decl ∈ defn.globalDecls, decl.Writable
  arguments : ∀ argument ∈ defn.arguments, argument.Writable
  premiseDefns : ASTPremiseDefn.ListWritable defn.premiseDefns
  propositionDefn : defn.propositionDefn.Writable

instance (defn : ASTInferenceDefn) : Decidable defn.Writable := decidable_of_iff' _ (writable_iff _)

theorem globalTokens_derives : ∀ decls : List ASTGlobalDecl,
    Grammar.GlobalDeclSet (globalTokens decls) decls
  | [] => .empty
  | _ :: _ => .mk (.join (List.cons_ne_nil _ _) fun decl _ => .mk decl.name)

theorem argumentTokens_derives : ∀ arguments : List ASTInferenceArgument,
    Grammar.ArgumentSet (argumentTokens arguments) arguments
  | [] => .empty
  | _ :: _ => .mk (.join (List.cons_ne_nil _ _) fun argument _ => .mk argument.name argument.typeName)

theorem derives {defn : ASTInferenceDefn} (writable : defn.Writable) :
    Grammar.InferenceDefn defn.tokens defn :=
  .mk (globalTokens_derives _) (argumentTokens_derives _)
    (.mk (ASTPremiseDefn.derives_list writable.premiseDefns)) defn.propositionDefn.derives

theorem globalTokens_writable : ∀ {decls : List ASTGlobalDecl}, (∀ decl ∈ decls, decl.Writable) →
    AllWritable (globalTokens decls)
  | [], _ => nofun
  | _ :: _, writable => by
      simp only [globalTokens, allWritable_cons, allWritable_append, allWritable_nil, and_true]
      exact ⟨trivial, trivial, trivial, allWritable_join trivial fun decl member => by
        simpa [ASTGlobalDecl.tokens, Token.Writable, ASTGlobalDecl.Writable] using writable decl member, trivial⟩

theorem argumentTokens_writable {arguments : List ASTInferenceArgument}
    (writable : ∀ argument ∈ arguments, argument.Writable) :
    AllWritable (argumentTokens arguments) := by
  simp only [argumentTokens, allWritable_cons, allWritable_append, allWritable_nil, and_true]
  refine ⟨trivial, trivial, trivial, allWritable_join trivial fun argument member => ?_, trivial⟩
  simp only [ASTInferenceArgument.tokens, allWritable_cons, allWritable_nil, and_true]
  exact ⟨(writable argument member).name, trivial, (writable argument member).typeName⟩

theorem tokens_writable {defn : ASTInferenceDefn} (writable : defn.Writable) :
    AllWritable defn.tokens := by
  simp only [tokens, premiseTokens, allWritable_cons, allWritable_append,
    allWritable_nil, and_true]
  exact ⟨trivial, writable.name, trivial, globalTokens_writable writable.globalDecls,
    argumentTokens_writable writable.arguments,
    ⟨trivial, trivial, trivial, ASTPremiseDefn.listTokens_writable writable.premiseDefns, trivial⟩,
    ASTPropositionDefn.tokens_writable writable.propositionDefn, trivial⟩

end ASTInferenceDefn

/-! ## Modules -/

def ASTEnvironmentDefn.tokens (defn : ASTEnvironmentDefn) : List Token :=
  [.identifier defn.field, .colon, .identifier defn.value, .semicolon]

@[mk_iff] structure ASTEnvironmentDefn.Writable (defn : ASTEnvironmentDefn) : Prop where
  field : IsIdentifier defn.field
  value : IsIdentifier defn.value

instance (defn : ASTEnvironmentDefn) : Decidable defn.Writable := decidable_of_iff' _ (ASTEnvironmentDefn.writable_iff _)

theorem ASTEnvironmentDefn.tokens_writable {defn : ASTEnvironmentDefn} (writable : defn.Writable) :
    AllWritable defn.tokens := by
  simp only [tokens, allWritable_cons, allWritable_nil, and_true]
  exact ⟨writable.field, trivial, writable.value, trivial⟩

namespace ASTInferenceGroup

def tokens (group : ASTInferenceGroup) : List Token :=
  .keywordGroup :: .identifier group.name :: .lbrace ::
    (group.environmentDefns.flatMap ASTEnvironmentDefn.tokens ++
      (group.inferenceDefns.flatMap ASTInferenceDefn.tokens ++ [.rbrace]))

@[mk_iff] structure Writable (group : ASTInferenceGroup) : Prop where
  name : IsIdentifier group.name
  environmentDefns : ∀ defn ∈ group.environmentDefns, defn.Writable
  inferenceDefns : ∀ defn ∈ group.inferenceDefns, defn.Writable

instance (group : ASTInferenceGroup) : Decidable group.Writable := decidable_of_iff' _ (writable_iff _)

theorem derives {group : ASTInferenceGroup} (writable : group.Writable) :
    Grammar.InferenceGroup group.tokens group :=
  .mk (.flatMap fun defn _ => .mk defn.field defn.value)
    (.flatMap fun _ member => ASTInferenceDefn.derives (writable.inferenceDefns _ member))

theorem tokens_writable {group : ASTInferenceGroup} (writable : group.Writable) :
    AllWritable group.tokens := by
  simp only [tokens, allWritable_cons, allWritable_append, allWritable_nil, and_true]
  exact ⟨trivial, writable.name, trivial,
    allWritable_flatMap fun _ member =>
      ASTEnvironmentDefn.tokens_writable (writable.environmentDefns _ member),
    allWritable_flatMap fun _ member =>
      ASTInferenceDefn.tokens_writable (writable.inferenceDefns _ member), trivial⟩

end ASTInferenceGroup

namespace ASTModule

def tokens (module : ASTModule) : List Token :=
  module.inferenceGroups.flatMap ASTInferenceGroup.tokens

def Writable (module : ASTModule) : Prop := ∀ group ∈ module.inferenceGroups, group.Writable

instance (module : ASTModule) : Decidable module.Writable :=
  inferInstanceAs (Decidable (∀ group ∈ module.inferenceGroups, group.Writable))

theorem derives {module : ASTModule} (writable : module.Writable) :
    Grammar.Input module.tokens module :=
  .mk (.flatMap fun group member => ASTInferenceGroup.derives (writable group member))

theorem tokens_writable {module : ASTModule} (writable : module.Writable) :
    AllWritable module.tokens :=
  allWritable_flatMap fun group member => ASTInferenceGroup.tokens_writable (writable group member)

end ASTModule

end Snowlake
