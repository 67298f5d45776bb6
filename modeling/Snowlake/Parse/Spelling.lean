import Snowlake.Parse.ParserDriver
import Snowlake.Sema.WellFormed

/-! # The names in a parsed module

Every name a semantic action stores is the text of an identifier token, and
every identifier token is a match of the rule for identifiers.  So the names of
a module that the driver holds have the shape of identifiers.
-/

namespace Snowlake

open Parsing MaximalMunch

/-! ## Names -/

namespace ASTDeductionTarget

mutual
/-- The names in a target, computed or not. -/
def words : ASTDeductionTarget → List StringType
  | .singular name | .array name _ => [name]
  | .computed name arguments => name :: wordsOfList arguments

def wordsOfList : List ASTDeductionTarget → List StringType
  | [] => []
  | target :: targets => words target ++ wordsOfList targets
end

theorem mem_wordsOfList {targets : List ASTDeductionTarget} {name : StringType} :
    name ∈ wordsOfList targets ↔ ∃ target ∈ targets, name ∈ target.words := by
  induction targets with
  | nil => simp [wordsOfList]
  | cons target targets ih => simp [wordsOfList, ih]

end ASTDeductionTarget

/-- The names in a premise, but for those of the premises it nests. -/
def ASTPremiseDefn.words : ASTPremiseDefn → List StringType
  | .inferencePremise defn => defn.source.identifiers ++ defn.deductionTarget.words
  | .inferenceEquality ⟨lhs, rhs, _, none⟩ => lhs.words ++ rhs.words
  | .inferenceEquality ⟨lhs, rhs, _, some range⟩ =>
      lhs.words ++ rhs.words ++ range.deductionTarget.words

/-- The names in a premise are texts of identifiers among the tokens, and there
is one in its source. -/
structure ASTPremiseDefn.Named (tokens : List Token) (premise : ASTPremiseDefn) : Prop where
  words : ∀ name ∈ premise.words, .identifier name ∈ tokens
  source : ∀ defn, premise = .inferencePremise defn → defn.source.identifiers ≠ []

theorem ASTPremiseDefn.Named.mono {part tokens : List Token} {premise : ASTPremiseDefn}
    (named : premise.Named part) (inside : ∀ token ∈ part, token ∈ tokens) : premise.Named tokens :=
  ⟨fun name member => inside _ (named.words name member), named.source⟩

/-! ## Derivations -/

section Derivations

variable {tokens : List Token}

theorem deductionTarget_words (size : Nat) {target : ASTDeductionTarget} (small : tokens.length < size)
    (derived : Grammar.DeductionTarget tokens target) :
    ∀ name ∈ target.words, .identifier name ∈ tokens := by
  induction size generalizing tokens target with
  | zero => exact absurd small (Nat.not_lt_zero _)
  | succ size ih =>
      cases derived with
      | singular | array | arrayOfSize | computed =>
          simp [ASTDeductionTarget.words, ASTDeductionTarget.wordsOfList]
      | @computedOf callee list targets areArguments =>
          intro name member
          simp only [ASTDeductionTarget.words, List.mem_cons, ASTDeductionTarget.mem_wordsOfList] at member
          rcases member with rfl | ⟨target, among, member⟩
          · exact List.mem_cons_self
          · obtain ⟨part, isPart, inside⟩ := areArguments.exists_of_mem target among
            have shorter := inside.length_le
            simp only [List.length_cons, List.length_append] at small
            have found := inside.subset (ih (by omega) isPart name member)
            simp [found]

theorem identifiable_words {source : ASTIdentifiable} (derived : Grammar.Identifiable tokens source) :
    source.identifiers ≠ [] ∧ ∀ name ∈ source.identifiers, .identifier name ∈ tokens := by
  refine ⟨SeparatedBy.ne_nil derived, fun name member => ?_⟩
  obtain ⟨part, ⟨isName⟩, inside⟩ := SeparatedBy.exists_of_mem derived name member
  exact inside.subset List.mem_cons_self

theorem equality_named {defn : ASTInferenceEqualityDefn}
    (derived : Grammar.PremiseTypeEqualityDefn tokens defn) :
    (ASTPremiseDefn.inferenceEquality defn).Named tokens := by
  refine ⟨fun name member => ?_, nofun⟩
  cases derived with
  | plain isLeft isSign isRight =>
      simp only [ASTPremiseDefn.words, List.mem_append] at member
      rcases member with inLeft | inRight
      · simp [deductionTarget_words _ (Nat.lt_succ_self _) isLeft name inLeft]
      · simp [deductionTarget_words _ (Nat.lt_succ_self _) isRight name inRight]
  | ranged isLeft isSign isRight isRange =>
      obtain ⟨isTarget⟩ := isRange
      simp only [ASTPremiseDefn.words, List.mem_append] at member
      rcases member with (inLeft | inRight) | inRange
      · simp [deductionTarget_words _ (Nat.lt_succ_self _) isLeft name inLeft]
      · simp [deductionTarget_words _ (Nat.lt_succ_self _) isRight name inRight]
      · simp [deductionTarget_words _ (Nat.lt_succ_self _) isTarget name inRange]

theorem inferencePremise_named {names list : List Token} {source : ASTIdentifiable}
    {target : ASTDeductionTarget} {whileClause : Option (List ASTPremiseDefn)}
    (isSource : Grammar.Identifiable names source) (isTarget : Grammar.DeductionTarget list target)
    (inNames : ∀ token ∈ names, token ∈ tokens) (inList : ∀ token ∈ list, token ∈ tokens) :
    (ASTPremiseDefn.inferencePremise ⟨source, target, whileClause⟩).Named tokens := by
  obtain ⟨nonempty, words⟩ := identifiable_words isSource
  refine ⟨fun name member => ?_, ?_⟩
  · simp only [ASTPremiseDefn.words, List.mem_append] at member
    rcases member with inSource | inTarget
    · exact inNames _ (words name inSource)
    · exact inList _ (deductionTarget_words _ (Nat.lt_succ_self _) isTarget name inTarget)
  · intro defn same
    cases same
    exact nonempty

/-- A premise, and all it nests: a while clause is shorter than its premise. -/
theorem premise_named (size : Nat) {premise : ASTPremiseDefn} (small : tokens.length < size)
    (derived : Grammar.PremiseDefn tokens premise) :
    ∀ nested ∈ premise.documentOrder, nested.Named tokens := by
  induction size generalizing tokens premise with
  | zero => exact absurd small (Nat.not_lt_zero _)
  | succ size ih =>
      intro nested member
      cases derived with
      | inferenceEquality isEquality =>
          obtain rfl := List.mem_singleton.mp member
          exact equality_named isEquality
      | inferencePremise isInference =>
          cases isInference with
          | plain isSource isTarget =>
              obtain rfl := List.mem_singleton.mp member
              exact inferencePremise_named isSource isTarget (fun token inside => by simp [inside])
                fun token inside => by simp [inside]
          | whileLoop isSource isTarget isLoop =>
              obtain ⟨areNested⟩ := isLoop
              rw [ASTPremiseDefn.documentOrder] at member
              rcases List.mem_cons.mp member with rfl | inBody
              · exact inferencePremise_named isSource isTarget (fun token inside => by simp [inside])
                  fun token inside => by simp [inside]
              · obtain ⟨premise, among, inPremise⟩ := ASTPremiseDefn.mem_documentOrderList.mp inBody
                obtain ⟨part, isPremise, inside⟩ := areNested.exists_of_mem premise among
                have shorter := inside.length_le
                simp only [List.length_cons, List.length_append] at small
                refine (ih (by omega) isPremise nested inPremise).mono fun token inPart => ?_
                simp [inside.subset inPart]

theorem inferenceDefn_named {defn : ASTInferenceDefn} (derived : Grammar.InferenceDefn tokens defn) :
    (∀ premise ∈ defn.allPremises, premise.Named tokens) ∧
      ∀ name ∈ defn.propositionDefn.target.words, .identifier name ∈ tokens := by
  obtain ⟨-, -, ⟨arePremises⟩, ⟨isTarget⟩⟩ := derived
  constructor
  · intro nested member
    obtain ⟨premise, among, inPremise⟩ := ASTPremiseDefn.mem_documentOrderList.mp member
    obtain ⟨part, isPremise, inside⟩ := arePremises.exists_of_mem premise among
    refine (premise_named _ (Nat.lt_succ_self _) isPremise nested inPremise).mono
      fun token inPart => ?_
    simp [inside.subset inPart]
  · intro name member
    have found := deductionTarget_words _ (Nat.lt_succ_self _) isTarget name member
    simp [found]

end Derivations

/-- The names in a group, but for its own and those of parameters, come from the
identifiers among the tokens. -/
structure ASTInferenceGroup.Named (tokens : List Token) (group : ASTInferenceGroup) : Prop where
  values : ∀ defn ∈ group.environmentDefns, .identifier defn.value ∈ tokens
  premises : ∀ defn ∈ group.inferenceDefns, ∀ premise ∈ defn.allPremises, premise.Named tokens
  propositions : ∀ defn ∈ group.inferenceDefns, ∀ name ∈ defn.propositionDefn.target.words,
    .identifier name ∈ tokens

theorem input_named {tokens : List Token} {module : ASTModule} (derived : Grammar.Input tokens module) :
    ∀ group ∈ module.inferenceGroups, group.Named tokens := by
  obtain ⟨areGroups⟩ := derived
  intro group among
  obtain ⟨part, isGroup, inside⟩ := areGroups.exists_of_mem group among
  obtain ⟨areEnvironment, areInferences⟩ := isGroup
  have within := inside.subset
  refine ⟨fun defn member => ?_, fun defn member premise inDefn => ?_, fun defn member name inTarget => ?_⟩
  · obtain ⟨part, ⟨field, value⟩, inPart⟩ := areEnvironment.exists_of_mem defn member
    have found := inPart.subset (show Token.identifier value ∈ _ by simp)
    exact within (by simp [found])
  · obtain ⟨part, isDefn, inPart⟩ := areInferences.exists_of_mem defn member
    refine ((inferenceDefn_named isDefn).1 premise inDefn).mono fun token inToken => within ?_
    simp [inPart.subset inToken]
  · obtain ⟨part, isDefn, inPart⟩ := areInferences.exists_of_mem defn member
    have found := inPart.subset ((inferenceDefn_named isDefn).2 name inTarget)
    exact within (by simp [found])

/-- The names in the head of a definition come from the identifiers among the tokens. -/
structure ASTInferenceDefn.HeadNamed (tokens : List Token) (defn : ASTInferenceDefn) : Prop where
  name : .identifier defn.name ∈ tokens
  arguments : ∀ argument ∈ defn.arguments,
    .identifier argument.typeName ∈ tokens ∧ .identifier argument.name ∈ tokens

theorem inferenceDefn_headNamed {tokens : List Token} {defn : ASTInferenceDefn}
    (derived : Grammar.InferenceDefn tokens defn) : defn.HeadNamed tokens := by
  obtain ⟨-, areArguments, -, -⟩ := derived
  refine ⟨by simp, fun argument member => ?_⟩
  cases areArguments with
  | empty => cases member
  | mk list =>
      obtain ⟨part, ⟨name, typeName⟩, inside⟩ := list.exists_of_mem argument member
      have within := inside.subset
      simp only [List.cons_subset] at within
      simp [within]

theorem input_headNamed {tokens : List Token} {module : ASTModule} (derived : Grammar.Input tokens module) :
    ∀ group ∈ module.inferenceGroups, ∀ defn ∈ group.inferenceDefns, defn.HeadNamed tokens := by
  obtain ⟨areGroups⟩ := derived
  intro group among defn member
  obtain ⟨part, ⟨_, areInferences⟩, inside⟩ := areGroups.exists_of_mem group among
  obtain ⟨part, isDefn, inPart⟩ := areInferences.exists_of_mem defn member
  obtain ⟨name, arguments⟩ := inferenceDefn_headNamed isDefn
  have within {token : Token} (inToken : token ∈ part) : token ∈ tokens := by
    refine inside.subset ?_
    simp [inPart.subset inToken]
  exact ⟨within name, fun argument inArguments =>
    ⟨within (arguments argument inArguments).1, within (arguments argument inArguments).2⟩⟩

/-! ## Identifiers -/

namespace Lexer

/-- No rule makes an identifier but the one for identifiers. -/
theorem identifierPattern_of_mem {pattern : Pattern Char} {action : Action}
    (member : (pattern, action) ∈ rules)
    (makes : action = .makeIdentifier ∨ ∃ name, action = .make (.identifier name)) :
    action = .makeIdentifier ∧ pattern = identifierPattern := by
  rcases makes with rfl | ⟨name, rfl⟩
  · simp [rules, tokenRules, rule] at member
    exact ⟨rfl, member⟩
  · simp [rules, tokenRules, rule] at member

theorem mem_of_mem_runActions {taken : List (Action × List Char)} {erange : Bool}
    {name : StringType} (member : .identifier name ∈ (runActions taken erange).1) :
    ∃ entry ∈ taken, entry.1 = .makeIdentifier ∧ entry.2 = name.toList ∨
      entry.1 = .make (.identifier name) := by
  induction taken generalizing erange with
  | nil => cases member
  | cons first rest ih =>
      obtain ⟨action, yytext⟩ := first
      simp only [runActions, List.mem_append, Option.mem_toList] at member
      rcases member with here | later
      · refine ⟨(action, yytext), List.mem_cons_self, ?_⟩
        cases action with
        | make token => exact .inr (congrArg _ (Option.some.inj here))
        | makeIdentifier =>
            obtain rfl := Token.identifier.inj (Option.some.inj here)
            exact .inl ⟨rfl, String.toList_ofList.symm⟩
        | ignore | makeIntegerLiteral => cases here
      · obtain ⟨entry, inRest, makes⟩ := ih later
        exact ⟨entry, List.mem_cons_of_mem _ inRest, makes⟩

/-- The lexer's identifiers have the shape of identifiers. -/
theorem matches_of_mem_yylex {input : List Char} {erange : Bool} {name : StringType}
    (member : .identifier name ∈ (yylex input erange).1) :
    Matches identifierPattern name.toList := by
  obtain ⟨⟨action, yytext⟩, inScan, makes⟩ := mem_of_mem_runActions member
  obtain ⟨-, pattern, isRule, matched⟩ := matches_of_mem_scan inScan
  rcases makes with ⟨isIdentifier, same⟩ | isMake
  · rw [(identifierPattern_of_mem isRule (.inl isIdentifier)).2] at matched
    exact same ▸ matched
  · have other := (identifierPattern_of_mem isRule (.inr ⟨name, isMake⟩)).1
    rw [isMake] at other
    cases other

end Lexer

end Snowlake
