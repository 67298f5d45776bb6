import Snowlake.Lib.Bracketed
import Snowlake.Lib.EarlyReturn
import Snowlake.Synth.Reading
import Snowlake.Sema.WellFormed

/-! # Execution paths of a synthesized function

The control flow of the emitted statements, whatever the comparison method
answers and however long the arrays are.  Two questions are settled here: when
every assumption a while premise sets up is torn down before the function
returns, and when a failed comparison reaches the caller.
-/

namespace Snowlake

open Emitted EarlyReturn

/-! ## Events -/

/-- What a path shows of an execution. -/
inductive Event where
  | setup (source : ASTIdentifiable) (target : Expr)
  | teardown (source : ASTIdentifiable) (target : Expr)
  /-- A call of the comparison method, and its answer. -/
  | compare (passed : Bool)
  /-- `*err` receives an error code with this value. -/
  | setError (value : Nat)

namespace Event

/-- An assumption is set up and torn down. -/
def role : Event → Bracketed.Role (ASTIdentifiable × Expr)
  | setup source target => .opens (source, target)
  | teardown source target => .closes (source, target)
  | compare _ | setError _ => .neutral

/-- Neither a failed comparison nor an assignment of an error. -/
def Quiet : Event → Prop
  | setup _ _ | teardown _ _ => True
  | compare passed => passed = true
  | setError _ => False

end Event

namespace Emitted

mutual
/-- The control flow of a statement. -/
def Stmt.code : Stmt → List (Code Event)
  | .blank | .comment _ | .declare _ _ _ => []
  | .setup source target => [.step (.setup source target)]
  | .teardown source target => [.step (.teardown source target)]
  | .ifNot _ body => [.unless .compare (Stmt.codeList body)]
  | .forRange _ _ _ body => [.loop (Stmt.codeList body)]
  | .setError value => [.step (.setError value)]
  | .returnDefault | .returnValue _ => [.ret]

def Stmt.codeList : List Stmt → List (Code Event)
  | [] => []
  | head :: tail => Stmt.code head ++ Stmt.codeList tail
end

@[simp] theorem Stmt.codeList_append (first second : List Stmt) :
    Stmt.codeList (first ++ second) = Stmt.codeList first ++ Stmt.codeList second := by
  induction first with
  | nil => rfl
  | cons head tail ih => simp only [List.cons_append, Stmt.codeList, ih, List.append_assoc]

end Emitted

namespace Synthesizer

/-- An emitted comparison with its error handling. -/
def check : Code Event := .unless .compare [.step (.setError 0), .ret]

mutual
/-- The control flow of a premise. -/
def premiseCode : ASTPremiseDefn → List (Code Event)
  | .inferencePremise ⟨_, target, none⟩ => if target.isComputed then [check] else []
  | .inferencePremise ⟨source, target, some body⟩ =>
      .step (.setup source (targetExpr target)) ::
        (premiseListCode body ++ [.step (.teardown source (targetExpr target))])
  | .inferenceEquality defn => if defn.rangeClause.isSome then [.loop [check]] else [check]

def premiseListCode : List ASTPremiseDefn → List (Code Event)
  | [] => []
  | head :: tail => premiseCode head ++ premiseListCode tail
end

section Code

variable (opts : Options)

theorem codeList_annotationLines (numbering : Numbering) :
    Stmt.codeList (annotationLines opts numbering) = [] := by
  rw [annotationLines]
  split <;> rfl

theorem codeList_plainPremiseStmts (nameId : UInt32) (source : ASTIdentifiable)
    (target : ASTDeductionTarget) : Stmt.codeList (plainPremiseStmts nameId source target) =
      if target.isComputed then [check] else [] := by
  cases target <;> rfl

theorem codeList_equalityStmts (defn : ASTInferenceEqualityDefn) :
    Stmt.codeList (equalityStmts defn) =
      if defn.rangeClause.isSome then [.loop [check]] else [check] := by
  rw [equalityStmts]
  cases defn.rangeClause <;> rfl

mutual
/-- Annotations and numbering do not matter to the control flow. -/
theorem codeList_premiseStmts (premise : ASTPremiseDefn) (numbering : Numbering) :
    Stmt.codeList (premiseStmts opts premise numbering) = premiseCode premise := by
  match premise with
  | .inferencePremise ⟨source, target, none⟩ =>
      rw [premiseStmts, Stmt.codeList_append, codeList_annotationLines, codeList_plainPremiseStmts,
        premiseCode, List.nil_append]
  | .inferencePremise ⟨source, target, some body⟩ =>
      simp only [premiseStmts, Stmt.codeList_append, codeList_annotationLines,
        codeList_premiseListStmts body numbering, premiseCode]
      rfl
  | .inferenceEquality defn => rw [premiseStmts, codeList_equalityStmts, premiseCode]

theorem codeList_premiseListStmts (premises : List ASTPremiseDefn) (numbering : Numbering) :
    Stmt.codeList (premiseListStmts opts premises numbering) = premiseListCode premises := by
  match premises with
  | [] => rfl
  | head :: tail =>
      rw [premiseListStmts, Stmt.codeList_append, codeList_premiseStmts head numbering,
        codeList_premiseListStmts tail (advance head numbering), premiseListCode]
end

theorem codeList_bodyStmts (defn : ASTInferenceDefn) (nameId : UInt32) :
    Stmt.codeList (bodyStmts opts defn nameId) = premiseListCode defn.premiseDefns ++ [.ret] := by
  rw [bodyStmts, Stmt.codeList_append, codeList_premiseListStmts]
  rfl

end Code

/-! ## Paths through the premises -/

/-- A failing path: its first failed comparison, and the error assigned at once. -/
def Fails (events : List Event) : Prop :=
  ∃ before, events = before ++ [.compare false, .setError 0] ∧ ∀ event ∈ before, event.Quiet

/-- What a path through the code of a premise looks like. -/
inductive PremisePath : List Event → Exit → Prop
  | passed {events} : (∀ event ∈ events, Event.Quiet event) →
      Bracketed.WellBracketed Event.role events → PremisePath events .falls
  | failed {events} : Fails events → PremisePath events .returns

theorem Fails.append {before events : List Event} (quiet : ∀ event ∈ before, event.Quiet)
    (fails : Fails events) : Fails (before ++ events) := by
  obtain ⟨rest, rfl, quietRest⟩ := fails
  refine ⟨before ++ rest, by simp, fun event member => ?_⟩
  rcases List.mem_append.mp member with early | late
  · exact quiet event early
  · exact quietRest event late

theorem Fails.cons {event : Event} {events : List Event} (quiet : event.Quiet)
    (fails : Fails events) : Fails (event :: events) :=
  Fails.append (fun other member => by rw [List.mem_singleton.mp member]; exact quiet) fails

theorem PremisePath.of_append {first second : List (Code Event)}
    (left : ∀ events exit, Path first events exit → PremisePath events exit)
    (right : ∀ events exit, Path second events exit → PremisePath events exit) :
    ∀ events exit, Path (first ++ second) events exit → PremisePath events exit := by
  intro events exit path
  rcases path.append_inv with ⟨rfl, returned⟩ | ⟨before, after, rfl, fell, rest⟩
  · exact left _ _ returned
  · obtain ⟨quiet, bracketed⟩ := left _ _ fell
    cases right _ _ rest with
    | passed quiet' bracketed' =>
        refine .passed (fun event member => ?_) (bracketed.append bracketed')
        rcases List.mem_append.mp member with early | late
        · exact quiet event early
        · exact quiet' event late
    | failed fails => exact .failed (fails.append quiet)

theorem check_inv {events : List Event} {exit : Exit} (path : Path [check] events exit) :
    (exit = .falls ∧ events = [.compare true]) ∨
      (exit = .returns ∧ events = [.compare false, .setError 0]) := by
  cases path with
  | pass rest => cases rest; exact .inl ⟨rfl, rfl⟩
  | fail inside _ => cases inside with | step inside => cases inside
  | failReturns inside =>
      cases inside with
      | step inside => cases inside; exact .inr ⟨rfl, rfl⟩

theorem check_path {events : List Event} {exit : Exit} (path : Path [check] events exit) :
    PremisePath events exit := by
  rcases check_inv path with ⟨rfl, rfl⟩ | ⟨rfl, rfl⟩
  · exact .passed (by simp [Event.Quiet]) (.neutral rfl .nil)
  · exact .failed ⟨[], rfl, by simp⟩

/-- A loop of comparisons: all pass, or the first that fails ends the function. -/
theorem loop_inv {events : List Event} {exit : Exit} (path : Path [.loop [check]] events exit) :
    (exit = .falls ∧ ∀ event ∈ events, event = .compare true) ∨
      ∃ before, exit = .returns ∧ events = before ++ [.compare false, .setError 0] ∧
        ∀ event ∈ before, event = .compare true := by
  have inverted := path.loop_inv (fun events => ∀ event ∈ events, event = .compare true) (by simp)
    (fun first second left right event member => by
      rcases List.mem_append.mp member with early | late
      · exact left event early
      · exact right event late)
    (fun events inside => by
      rcases check_inv inside with ⟨-, rfl⟩ | ⟨impossible, -⟩
      · simp
      · cases impossible)
  rcases inverted with fell | ⟨before, last, rfl, rfl, passed, returned⟩
  · exact .inl fell
  · rcases check_inv returned with ⟨impossible, -⟩ | ⟨-, rfl⟩
    · cases impossible
    · exact .inr ⟨before, rfl, rfl, passed⟩

theorem loop_path {events : List Event} {exit : Exit} (path : Path [.loop [check]] events exit) :
    PremisePath events exit := by
  have quiet : ∀ events : List Event, (∀ event ∈ events, event = .compare true) →
      ∀ event ∈ events, event.Quiet := fun events passed event member => by
    rw [passed event member]
    rfl
  rcases loop_inv path with ⟨rfl, passed⟩ | ⟨before, rfl, rfl, passed⟩
  · refine .passed (quiet events passed) (.of_neutral fun event member => ?_)
    rw [passed event member]
    rfl
  · exact .failed ⟨before, rfl, quiet before passed⟩

mutual
/-- A path through a premise falls through it quietly and well bracketed, or
ends in a failed comparison. -/
theorem premise_path (premise : ASTPremiseDefn) :
    ∀ events exit, Path (premiseCode premise) events exit → PremisePath events exit := by
  match premise with
  | .inferencePremise ⟨source, target, none⟩ =>
      rw [premiseCode]
      cases target.isComputed with
      | true => exact fun events exit path => check_path path
      | false =>
          intro events exit path
          cases path
          exact .passed (by simp) .nil
  | .inferencePremise ⟨source, target, some body⟩ =>
      rw [premiseCode]
      intro events exit path
      cases path with
      | @step _ _ events exit path =>
          rcases path.append_inv with ⟨rfl, returned⟩ | ⟨inside, after, rfl, fell, rest⟩
          · cases premises_path body _ _ returned with
            | failed fails => exact .failed (fails.cons trivial)
          · cases premises_path body _ _ fell with
            | passed quiet bracketed =>
                cases rest with
                | step rest =>
                    cases rest
                    refine .passed (fun event member => ?_) (.scope rfl bracketed rfl .nil)
                    simp only [List.mem_cons, List.mem_append, List.not_mem_nil, or_false] at member
                    rcases member with rfl | inner | rfl
                    · trivial
                    · exact quiet event inner
                    · trivial
  | .inferenceEquality defn =>
      rw [premiseCode]
      cases defn.rangeClause.isSome with
      | true => exact fun events exit path => loop_path path
      | false => exact fun events exit path => check_path path

theorem premises_path (premises : List ASTPremiseDefn) :
    ∀ events exit, Path (premiseListCode premises) events exit → PremisePath events exit := by
  match premises with
  | [] =>
      intro events exit path
      cases path
      exact .passed (by simp) .nil
  | head :: tail => exact .of_append (premise_path head) (premises_path tail)
end

end Synthesizer

/-! ## Comparisons -/

namespace ASTPremiseDefn

/-- The function of the premise compares: an equality premise, or a computed
target without while clause. -/
def isComparison : ASTPremiseDefn → Bool
  | .inferencePremise ⟨_, target, none⟩ => target.isComputed
  | .inferencePremise ⟨_, _, some _⟩ => false
  | .inferenceEquality _ => true

/-- Some premise at any depth is a comparison. -/
def Compares (premises : List ASTPremiseDefn) : Prop :=
  ∃ premise ∈ documentOrderList premises, premise.isComparison = true

instance (premises : List ASTPremiseDefn) : Decidable (Compares premises) :=
  inferInstanceAs (Decidable (∃ premise ∈ _, _))

theorem compares_cons (head : ASTPremiseDefn) (tail : List ASTPremiseDefn) :
    Compares (head :: tail) ↔ Compares [head] ∨ Compares tail := by
  simp only [Compares, documentOrderList, List.append_nil, List.mem_append, or_and_right, exists_or]

theorem compares_while (source : ASTIdentifiable) (target : ASTDeductionTarget)
    (body : List ASTPremiseDefn) :
    Compares [.inferencePremise ⟨source, target, some body⟩] ↔ Compares body := by
  simp [Compares, documentOrderList, documentOrder, isComparison]

end ASTPremiseDefn

namespace ASTInferenceDefn

/-- A premise of the definition, at any depth, is a comparison. -/
def Compares (defn : ASTInferenceDefn) : Prop := ASTPremiseDefn.Compares defn.premiseDefns

/-- A comparison stands, at any depth, inside of a while clause. -/
def ComparesInWhileClause (defn : ASTInferenceDefn) : Prop :=
  ∃ premise ∈ defn.premiseDefns, premise.hasWhileClause = true ∧ ASTPremiseDefn.Compares [premise]

end ASTInferenceDefn

namespace Synthesizer

open ASTPremiseDefn

mutual
/-- There is a path on which every comparison passes and no loop has a round. -/
theorem exists_premise_falls (premise : ASTPremiseDefn) :
    ∃ events, Path (premiseCode premise) events .falls := by
  match premise with
  | .inferencePremise ⟨source, target, none⟩ =>
      rw [premiseCode]
      cases target.isComputed with
      | true => exact ⟨_, .pass .nil⟩
      | false => exact ⟨_, .nil⟩
  | .inferencePremise ⟨source, target, some body⟩ =>
      obtain ⟨events, inside⟩ := exists_falls body
      exact ⟨_, .step (inside.append (.step .nil))⟩
  | .inferenceEquality defn =>
      rw [premiseCode]
      cases defn.rangeClause.isSome with
      | true => exact ⟨_, .leave .nil⟩
      | false => exact ⟨_, .pass .nil⟩

theorem exists_falls (premises : List ASTPremiseDefn) :
    ∃ events, Path (premiseListCode premises) events .falls := by
  match premises with
  | [] => exact ⟨_, .nil⟩
  | head :: tail =>
      obtain ⟨first, path⟩ := exists_premise_falls head
      obtain ⟨second, rest⟩ := exists_falls tail
      exact ⟨_, path.append rest⟩
end

mutual
/-- Without a comparison there is no way to return early. -/
theorem premise_falls (premise : ASTPremiseDefn) (none : ¬ Compares [premise])
    {events : List Event} {exit : Exit} (path : Path (premiseCode premise) events exit) :
    exit = .falls := by
  match premise with
  | .inferencePremise ⟨source, target, .none⟩ =>
      have plain : target.isComputed = false := by
        simpa [Compares, documentOrderList, documentOrder, isComparison] using none
      rw [premiseCode, plain] at path
      cases path
      rfl
  | .inferencePremise ⟨source, target, some body⟩ =>
      rw [compares_while] at none
      cases path with
      | step path =>
          rcases path.append_inv with ⟨-, returned⟩ | ⟨_, _, rfl, _, rest⟩
          · exact absurd (premises_fall body none returned) (by decide)
          · cases rest with
            | step rest => cases rest; rfl
  | .inferenceEquality defn =>
      exact absurd ⟨.inferenceEquality defn, by simp [documentOrderList, documentOrder], rfl⟩ none

theorem premises_fall (premises : List ASTPremiseDefn) (none : ¬ Compares premises)
    {events : List Event} {exit : Exit} (path : Path (premiseListCode premises) events exit) :
    exit = .falls := by
  match premises with
  | [] => cases path; rfl
  | head :: tail =>
      rw [compares_cons, not_or] at none
      rcases path.append_inv with ⟨rfl, returned⟩ | ⟨_, _, rfl, _, rest⟩
      · exact premise_falls head none.1 returned
      · exact premises_fall tail none.2 rest
end

theorem depth_of_falls {premise : ASTPremiseDefn} {events : List Event}
    (path : Path (premiseCode premise) events .falls) : Bracketed.depth Event.role events = 0 := by
  cases premise_path premise _ _ path with
  | passed _ bracketed => exact bracketed.depth_eq_zero

mutual
/-- Any comparison may be the one that fails, under the assumptions around it. -/
theorem exists_premise_returns (premise : ASTPremiseDefn) (compares : Compares [premise]) :
    ∃ events, Path (premiseCode premise) events .returns ∧
      0 ≤ Bracketed.depth Event.role events ∧
        (premise.hasWhileClause = true → 1 ≤ Bracketed.depth Event.role events) := by
  match premise with
  | .inferencePremise ⟨source, target, none⟩ =>
      have computed : target.isComputed = true := by
        simpa [Compares, documentOrderList, documentOrder, isComparison] using compares
      rw [premiseCode, computed]
      exact ⟨_, .failReturns (.step .ret), by decide, by simp [hasWhileClause]⟩
  | .inferencePremise ⟨source, target, some body⟩ =>
      rw [compares_while] at compares
      obtain ⟨events, inside, leaked⟩ := exists_returns body compares
      have deeper : 1 ≤ Bracketed.depth Event.role (.setup source (targetExpr target) :: events) := by
        simp only [Bracketed.depth, Event.role]
        omega
      exact ⟨_, .step (inside.append_returns _), by omega, fun _ => deeper⟩
  | .inferenceEquality defn =>
      rw [premiseCode]
      cases defn.rangeClause.isSome with
      | true => exact ⟨_, .quit (.failReturns (.step .ret)), by decide, by simp [hasWhileClause]⟩
      | false => exact ⟨_, .failReturns (.step .ret), by decide, by simp [hasWhileClause]⟩

theorem exists_returns (premises : List ASTPremiseDefn) (compares : Compares premises) :
    ∃ events, Path (premiseListCode premises) events .returns ∧
      0 ≤ Bracketed.depth Event.role events := by
  match premises with
  | [] => simp [Compares, documentOrderList] at compares
  | head :: tail =>
      rcases (compares_cons head tail).mp compares with here | later
      · obtain ⟨events, path, leaked, -⟩ := exists_premise_returns head here
        exact ⟨events, path.append_returns _, leaked⟩
      · obtain ⟨before, fell⟩ := exists_premise_falls head
        obtain ⟨events, path, leaked⟩ := exists_returns tail later
        refine ⟨before ++ events, fell.append path, ?_⟩
        rw [Bracketed.depth_append, depth_of_falls fell]
        omega
end

/-! ## Whole functions -/

variable (opts : Options)

/-- Every path through a body returns, early or at its end. -/
theorem body_path (defn : ASTInferenceDefn) (nameId : UInt32) {events : List Event} {exit : Exit}
    (path : Path (Stmt.codeList (bodyStmts opts defn nameId)) events exit) :
    exit = .returns ∧ ∃ exit', Path (premiseListCode defn.premiseDefns) events exit' := by
  rw [codeList_bodyStmts] at path
  rcases path.append_inv with ⟨rfl, returned⟩ | ⟨before, after, rfl, fell, rest⟩
  · exact ⟨rfl, _, returned⟩
  · cases rest
    exact ⟨rfl, _, by simpa using fell⟩

theorem path_body (defn : ASTInferenceDefn) (nameId : UInt32) {events : List Event}
    (path : Path (premiseListCode defn.premiseDefns) events .returns) :
    Path (Stmt.codeList (bodyStmts opts defn nameId)) events .returns := by
  rw [codeList_bodyStmts]
  exact path.append_returns _

/-- A premise without while clause touches no assumption. -/
theorem neutral_of_plain {premise : ASTPremiseDefn} (plain : premise.hasWhileClause = false)
    {events : List Event} {exit : Exit} (path : Path (premiseCode premise) events exit) :
    ∀ event ∈ events, event.role = .neutral := by
  have checked : ∀ {events : List Event} {exit : Exit}, Path [check] events exit →
      ∀ event ∈ events, event.role = .neutral := fun path => by
    rcases check_inv path with ⟨-, rfl⟩ | ⟨-, rfl⟩ <;> simp [Event.role]
  match premise with
  | .inferencePremise ⟨source, target, none⟩ =>
      rw [premiseCode] at path
      cases computed : target.isComputed with
      | true => rw [computed] at path; exact checked path
      | false => rw [computed] at path; cases path; simp
  | .inferencePremise ⟨source, target, some body⟩ => simp [hasWhileClause] at plain
  | .inferenceEquality defn =>
      rw [premiseCode] at path
      cases ranged : defn.rangeClause.isSome with
      | true =>
          rw [ranged] at path
          rcases loop_inv path with ⟨-, passed⟩ | ⟨before, -, rfl, passed⟩
          · exact fun event member => by rw [passed event member]; rfl
          · intro event member
            rcases List.mem_append.mp member with early | late
            · rw [passed event early]; rfl
            · simp only [List.mem_cons, List.not_mem_nil, or_false] at late
              rcases late with rfl | rfl <;> rfl
      | false => rw [ranged] at path; exact checked path

/-- Returning early from premises none of whose while clauses compares. -/
theorem returns_bracketed (premises : List ASTPremiseDefn)
    (outside : ∀ premise ∈ premises, premise.hasWhileClause = true → ¬ Compares [premise])
    {events : List Event} (path : Path (premiseListCode premises) events .returns) :
    Bracketed.WellBracketed Event.role events := by
  induction premises generalizing events with
  | nil => cases path
  | cons head tail ih =>
      rcases path.append_inv with ⟨-, returned⟩ | ⟨before, after, rfl, fell, rest⟩
      · cases plain : head.hasWhileClause with
        | true => exact absurd (premise_falls head (outside head (by simp) plain) returned) (by decide)
        | false => exact .of_neutral (neutral_of_plain plain returned)
      · cases premise_path head _ _ fell with
        | passed _ bracketed =>
            exact bracketed.append
              (ih (fun premise member => outside premise (List.mem_cons_of_mem _ member)) rest)

/-- Some early return from within a while clause that compares leaks its assumption. -/
theorem exists_leak (premises : List ASTPremiseDefn)
    (inside : ∃ premise ∈ premises, premise.hasWhileClause = true ∧ Compares [premise]) :
    ∃ events, Path (premiseListCode premises) events .returns ∧
      1 ≤ Bracketed.depth Event.role events := by
  induction premises with
  | nil => simp at inside
  | cons head tail ih =>
      rcases (List.exists_mem_cons_iff ..).mp inside with ⟨uses, compares⟩ | later
      · obtain ⟨events, path, -, leaked⟩ := exists_premise_returns head compares
        exact ⟨events, path.append_returns _, leaked uses⟩
      · obtain ⟨before, fell⟩ := exists_premise_falls head
        obtain ⟨events, path, leaked⟩ := ih later
        refine ⟨before ++ events, fell.append path, ?_⟩
        rw [Bracketed.depth_append, depth_of_falls fell]
        omega

/-- On every path of a function the setup and teardown calls are well bracketed,
and closed at the return, exactly if no while clause of the definition compares. -/
theorem fixtures_bracketed_iff (defn : ASTInferenceDefn) (nameId : UInt32) :
    (∀ events exit, Path (Stmt.codeList (bodyStmts opts defn nameId)) events exit →
        exit = .returns ∧ Bracketed.WellBracketed Event.role events) ↔
      ¬ defn.ComparesInWhileClause := by
  constructor
  · intro bracketed inside
    obtain ⟨events, path, leaked⟩ := exists_leak defn.premiseDefns inside
    have closed := (bracketed events _ (path_body opts defn nameId path)).2.depth_eq_zero
    omega
  · intro outside events exit path
    obtain ⟨returned, exit', inside⟩ := body_path opts defn nameId path
    refine ⟨returned, ?_⟩
    cases exit' with
    | falls =>
        cases premises_path defn.premiseDefns _ _ inside with
        | passed _ bracketed => exact bracketed
    | returns =>
        exact returns_bracketed defn.premiseDefns
          (fun premise member uses compares => outside ⟨premise, member, uses, compares⟩) inside

/-- A definition that compares two globals under an assumption. -/
def assumingDefn : ASTInferenceDefn where
  name := "Assuming"
  globalDecls := [⟨"LEFT"⟩, ⟨"RIGHT"⟩]
  arguments := [⟨"expr", "ASTExpr"⟩]
  premiseDefns := [.inferencePremise ⟨⟨["expr", "type"]⟩, .singular "Assumed", some [
    .inferenceEquality ⟨.singular "LEFT", .singular "RIGHT", .operatorEq, none⟩]⟩]
  propositionDefn := ⟨.computed "result" []⟩

def assumingModule : ASTModule := .ofInference assumingDefn

/-- The path on which the comparison of `assumingDefn` fails. -/
theorem assumingDefn_path : Path (Stmt.codeList (bodyStmts opts assumingDefn 0))
    [.setup ⟨["expr", "type"]⟩ (.ident "Assumed"), .compare false, .setError 0] .returns :=
  path_body _ _ _ (.step (.failReturns (.step .ret)))

/-- In an accepted module that defines the fixture methods, a failed comparison
leaves an assumption behind. -/
theorem assumption_leaks :
    (SemanticAnalyzer.run ⟨true, true, false⟩ assumingModule).value = true ∧
      (∀ group ∈ assumingModule.inferenceGroups, group.DefinesFixtures ∧ assumingDefn ∈ group.inferenceDefns) ∧
      ∃ events, Path (Stmt.codeList (bodyStmts ⟨false, true, "", ""⟩ assumingDefn 0)) events .returns ∧
        ¬ Bracketed.WellBracketed Event.role events :=
  ⟨by decide, by simp [assumingModule, ASTModule.ofInference]; decide, _, assumingDefn_path _,
    fun bracketed => absurd bracketed.depth_eq_zero (by decide)⟩

/-- The caller learns of a failed comparison, and of nothing else: without
exceptions `*err` receives an error code that converts to true, with exceptions
the parameter that the signature lacks is not assigned. -/
structure ReportsFailure (useException : Bool) (events : List Event) : Prop where
  failure : .compare false ∈ events → useException = false →
    ∃ value, value ≠ 0 ∧ .setError value ∈ events
  noParameter : useException = true → ∀ value, .setError value ∉ events
  success : .compare false ∉ events → ∀ value, .setError value ∉ events

theorem Fails.not_reportsFailure {events : List Event} (fails : Fails events) (useException : Bool) :
    ¬ ReportsFailure useException events := by
  obtain ⟨before, rfl, quiet⟩ := fails
  intro reports
  cases useException with
  | true => exact reports.noParameter rfl 0 (by simp)
  | false =>
      obtain ⟨value, nonzero, member⟩ := reports.failure (by simp) rfl
      simp only [List.mem_append, List.mem_cons, reduceCtorEq, Event.setError.injEq,
        List.not_mem_nil, or_false, false_or] at member
      rcases member with early | isZero
      · exact quiet _ early
      · exact nonzero isZero

theorem reportsFailure_of_quiet {events : List Event} (quiet : ∀ event ∈ events, event.Quiet)
    (useException : Bool) : ReportsFailure useException events where
  failure := fun member _ => nomatch quiet _ member
  noParameter := fun _ _ member => quiet _ member
  success := fun _ _ member => quiet _ member

/-- Every path of a function reports failure and success faithfully exactly if
the function has no comparison that could fail. -/
theorem reportsFailure_iff (defn : ASTInferenceDefn) (nameId : UInt32) :
    (∀ events exit, Path (Stmt.codeList (bodyStmts opts defn nameId)) events exit →
        ReportsFailure opts.useException events) ↔
      ¬ defn.Compares := by
  constructor
  · intro reports compares
    obtain ⟨events, path, -⟩ := exists_returns defn.premiseDefns compares
    have reported := reports events _ (path_body opts defn nameId path)
    cases premises_path defn.premiseDefns _ _ path with
    | failed fails => exact fails.not_reportsFailure opts.useException reported
  · intro none events exit path
    obtain ⟨-, exit', inside⟩ := body_path opts defn nameId path
    obtain rfl := premises_fall defn.premiseDefns none inside
    cases premises_path defn.premiseDefns _ _ inside with
    | passed quiet _ => exact reportsFailure_of_quiet quiet opts.useException

/-- Its failed comparison reads as success: without exceptions the error code has
the value 0, with exceptions `*err` is assigned all the same. -/
theorem failure_unreported :
    (SemanticAnalyzer.run ⟨true, true, false⟩ assumingModule).value = true ∧
      (∃ events, Path (Stmt.codeList (bodyStmts ⟨false, true, "", ""⟩ assumingDefn 0)) events .returns ∧
        ¬ ReportsFailure false events) ∧
      ∃ events, Path (Stmt.codeList (bodyStmts ⟨true, true, "", ""⟩ assumingDefn 0)) events .returns ∧
        ¬ ReportsFailure true events :=
  have fails : Fails [.setup ⟨["expr", "type"]⟩ (.ident "Assumed"), .compare false, .setError 0] :=
    ⟨[_], rfl, by simp [Event.Quiet]⟩
  ⟨by decide, ⟨_, assumingDefn_path ⟨false, true, "", ""⟩, fails.not_reportsFailure false⟩,
    ⟨_, assumingDefn_path ⟨true, true, "", ""⟩, fails.not_reportsFailure true⟩⟩

end Synthesizer

end Snowlake
