import Snowlake.Synth.Indices

/-! # The subscripts of a loop

A range clause becomes a loop over two counters with starting points of their
own, of which only the first is tested against the bound.  Which elements are
read is read off the emitted statements, whatever the comparisons answer.
-/

namespace Snowlake

open Emitted

namespace Emitted

/-! ## Elements that statements read -/

/-- An array and the index of the element read. -/
abbrev Subscript := StringType × UInt64

/-- The values of the loop counters in sight. -/
abbrev Counters := StringType → Option UInt64

def Counters.enterLoop (counters : Counters) (i j : UInt64) : Counters :=
  Function.update (Function.update counters "i" (some i)) "j" (some j)

def Init.subscripts : Init → List Subscript
  | .proof _ => []
  | .value expr => expr.elements

/-- A subscript of what a call returns is no element of a variable. -/
def Operand.subscripts (counters : Counters) (operand : Operand) : List Subscript :=
  operand.expr.elements ++
    match operand.expr.root, operand.counter.bind counters with
    | some name, some index => [(name, index)]
    | _, _ => []

def Comparison.subscripts (counters : Counters) (comparison : Comparison) : List Subscript :=
  comparison.lhs.subscripts counters ++ comparison.rhs.subscripts counters

/-- The rounds of `for (i, j; i < size; ++i, ++j)`, where `round` says what a
round reads and whether it returns. -/
inductive Rounds (size : UInt64) (round : UInt64 → UInt64 → List Subscript → Bool → Prop) :
    UInt64 → UInt64 → List Subscript → Bool → Prop
  | done {i j : UInt64} (passed : ¬ i < size) : Rounds size round i j [] false
  | left {i j : UInt64} {read : List Subscript} (below : i < size) (returns : round i j read true) :
      Rounds size round i j read true
  | next {i j : UInt64} {read rest : List Subscript} {returned : Bool} (below : i < size)
      (continues : round i j read false) (later : Rounds size round (i + 1) (j + 1) rest returned) :
      Rounds size round i j (read ++ rest) returned

section Reads

variable (size : Expr → UInt64)

mutual
/-- A statement may read these elements, in order, and return or not.  A
comparison may answer either way; `size` is that of each vector. -/
def Stmt.Reads (counters : Counters) : Stmt → List Subscript → Bool → Prop
  | .blank, read, returned | .comment _, read, returned | .setError _, read, returned =>
      read = [] ∧ returned = false
  | .declare _ _ init, read, returned => read = init.subscripts ∧ returned = false
  | .setup _ target, read, returned | .teardown _ target, read, returned =>
      read = target.elements ∧ returned = false
  | .ifNot comparison body, read, returned =>
      read = comparison.subscripts counters ∧ returned = false ∨
        ∃ inside, Stmt.ReadsList counters body inside returned ∧
          read = comparison.subscripts counters ++ inside
  | .forRange lhsIdx rhsIdx bound body, read, returned =>
      Rounds (size bound) (fun i j => Stmt.ReadsList (counters.enterLoop i j) body) lhsIdx rhsIdx
        read returned
  | .returnDefault, read, returned => read = [] ∧ returned = true
  | .returnValue value, read, returned => read = value.elements ∧ returned = true

def Stmt.ReadsList (counters : Counters) : List Stmt → List Subscript → Bool → Prop
  | [], read, returned => read = [] ∧ returned = false
  | head :: tail, read, returned =>
      Stmt.Reads counters head read true ∧ returned = true ∨
        ∃ first rest, Stmt.Reads counters head first false ∧ Stmt.ReadsList counters tail rest returned ∧
          read = first ++ rest
end

/-- Whatever the comparisons answer, every element read is there. -/
def SubscriptsInBounds (stmts : List Stmt) : Prop :=
  ∀ read returned, Stmt.ReadsList size (fun _ => none) stmts read returned →
    ∀ name index, (name, index) ∈ read → index < size (.ident name)

end Reads

end Emitted

namespace Synthesizer

/-! ## The loop of a range clause -/

section Loop

variable {size : Expr → UInt64} {lhs rhs : StringType}

/-- What the body of the loop reads: one element of each operand. -/
def ReadsPair (lhs rhs : StringType) (i j : UInt64) (read : List Subscript) (_ : Bool) : Prop :=
  read = [(lhs, i), (rhs, j)]

theorem readsList_errorHandling (counters : Counters) (read : List Subscript) (returned : Bool) :
    Stmt.ReadsList size counters errorHandling read returned ↔ read = [] ∧ returned = true := by
  constructor
  · intro reads
    rcases reads with ⟨⟨-, ⟨⟩⟩, -⟩ | ⟨first, rest, ⟨rfl, -⟩, later, rfl⟩
    rcases later with ⟨⟨rfl, -⟩, rfl⟩ | ⟨_, _, ⟨-, ⟨⟩⟩, -⟩
    exact ⟨rfl, rfl⟩
  · rintro ⟨rfl, rfl⟩
    exact .inr ⟨[], [], ⟨rfl, rfl⟩, .inl ⟨⟨rfl, rfl⟩, rfl⟩, rfl⟩

theorem readsList_check (counters : Counters) (comparison : Comparison) (read : List Subscript)
    (returned : Bool) : Stmt.ReadsList size counters [.ifNot comparison errorHandling] read returned ↔
      read = comparison.subscripts counters := by
  simp only [Stmt.ReadsList, Stmt.Reads, readsList_errorHandling]
  constructor
  · rintro (⟨⟨-, ⟨⟩⟩ | ⟨inside, ⟨rfl, -⟩, same⟩, -⟩ | ⟨first, rest, passed, ⟨rfl, -⟩, rfl⟩)
    · rw [same, List.append_nil]
    · rcases passed with ⟨rfl, -⟩ | ⟨_, ⟨-, ⟨⟩⟩, -⟩
      exact List.append_nil _
  · rintro rfl
    cases returned with
    | true => exact .inl ⟨.inr ⟨[], ⟨rfl, trivial⟩, (List.append_nil _).symm⟩, rfl⟩
    | false => exact .inr ⟨_, [], .inl ⟨rfl, trivial⟩, ⟨rfl, rfl⟩, (List.append_nil _).symm⟩

theorem readsList_then_blank (counters : Counters) (stmt : Stmt) (read : List Subscript) (returned : Bool) :
    Stmt.ReadsList size counters [stmt, .blank] read returned ↔
      Stmt.Reads size counters stmt read returned := by
  simp only [Stmt.ReadsList, Stmt.Reads]
  constructor
  · rintro (⟨reads, rfl⟩ | ⟨first, rest, reads, later, rfl⟩)
    · exact reads
    · rcases later with ⟨⟨-, ⟨⟩⟩, -⟩ | ⟨_, _, ⟨rfl, -⟩, ⟨rfl, rfl⟩, rfl⟩
      rwa [List.append_nil, List.append_nil]
  · intro reads
    cases returned with
    | true => exact .inl ⟨reads, rfl⟩
    | false =>
        exact .inr ⟨read, [], reads, .inr ⟨[], [], ⟨rfl, trivial⟩, ⟨rfl, rfl⟩, rfl⟩,
          (List.append_nil _).symm⟩

/-- A counter below a bound does not wrap around. -/
theorem toNat_succ_of_lt {i bound : UInt64} (below : i < bound) : (i + 1).toNat = i.toNat + 1 := by
  have small := bound.toNat_lt
  have less := UInt64.lt_iff_toNat_lt.mp below
  rw [UInt64.toNat_add, UInt64.toNat_one, Nat.mod_eq_of_lt]
  omega

theorem add_one_add_ofNat (start : UInt64) (k : Nat) : start + 1 + .ofNat k = start + .ofNat (k + 1) := by
  rw [UInt64.ofNat_add]
  ac_rfl

/-- Every round reads below the bound on the left, and as far on from its start on the right. -/
theorem mem_of_rounds {bound i j : UInt64} {read : List Subscript} {returned : Bool}
    (rounds : Rounds bound (ReadsPair lhs rhs) i j read returned) {name : StringType} {index : UInt64}
    (member : (name, index) ∈ read) :
    ∃ k, i.toNat + k < bound.toNat ∧
      (name = lhs ∧ index = i + .ofNat k ∨ name = rhs ∧ index = j + .ofNat k) := by
  have here {i j : UInt64} {read : List Subscript} {returned : Bool} (below : i < bound)
      (pair : ReadsPair lhs rhs i j read returned) (member : (name, index) ∈ read) :
      ∃ k, i.toNat + k < bound.toNat ∧
        (name = lhs ∧ index = i + .ofNat k ∨ name = rhs ∧ index = j + .ofNat k) := by
    rw [pair, List.mem_cons, List.mem_singleton, Prod.mk.injEq, Prod.mk.injEq] at member
    refine ⟨0, UInt64.lt_iff_toNat_lt.mp below, ?_⟩
    simpa using member
  induction rounds with
  | done => cases member
  | left below pair => exact here below pair member
  | @next i j _ _ _ below pair _ ih =>
      rcases List.mem_append.mp member with inRound | later
      · exact here below pair inRound
      · obtain ⟨k, inside, which⟩ := ih later
        rw [toNat_succ_of_lt below] at inside
        rw [add_one_add_ofNat, add_one_add_ofNat] at which
        exact ⟨k + 1, by omega, which⟩

/-- Some execution comes to each round. -/
theorem exists_rounds {bound : UInt64} (k : Nat) {i j : UInt64} (inside : i.toNat + k < bound.toNat) :
    ∃ read returned, Rounds bound (ReadsPair lhs rhs) i j read returned ∧
      (rhs, j + .ofNat k) ∈ read := by
  have below : i < bound := UInt64.lt_iff_toNat_lt.mpr (by omega)
  induction k generalizing i j with
  | zero => exact ⟨_, true, .left below rfl, by simp⟩
  | succ k ih =>
      have successor := toNat_succ_of_lt below
      obtain ⟨read, returned, later, member⟩ := ih (i := i + 1) (j := j + 1) (by omega)
        (UInt64.lt_iff_toNat_lt.mpr (by omega))
      rw [add_one_add_ofNat] at member
      exact ⟨_, returned, .next below rfl later, List.mem_append_right _ member⟩

/-- The equality premise `lhs[] oprt rhs[] inrange lhsIdx..rhsIdx..bound[]`. -/
def rangedEquality (lhs rhs : StringType) (oprt : EqualityOperator) (lhsIdx rhsIdx : IntegerType)
    (bound : StringType) : ASTInferenceEqualityDefn :=
  ⟨.array lhs none, .array rhs none, oprt, some ⟨lhsIdx, rhsIdx, .array bound none⟩⟩

/-- The loop of a ranged premise reads a pair of elements a round. -/
theorem readsList_rangedEquality (oprt : EqualityOperator) (lhsIdx rhsIdx : IntegerType)
    (bound : StringType) (counters : Counters) (read : List Subscript) (returned : Bool) :
    Stmt.ReadsList size counters (equalityStmts (rangedEquality lhs rhs oprt lhsIdx rhsIdx bound))
        read returned ↔
      Rounds (size (.ident bound)) (ReadsPair lhs rhs) lhsIdx rhsIdx read returned := by
  have round (i j : UInt64) : Stmt.ReadsList size (counters.enterLoop i j)
      [.ifNot ⟨⟨.ident lhs, some "i"⟩, ⟨.ident rhs, some "j"⟩, some oprt⟩ errorHandling] =
        ReadsPair lhs rhs i j := by
    funext read returned
    rw [eq_iff_iff, readsList_check, ReadsPair]
    simp [Comparison.subscripts, Operand.subscripts, Expr.elements, Expr.root, Counters.enterLoop,
      Function.update_apply]
  simp only [equalityStmts, rangedEquality, targetExpr]
  rw [readsList_then_blank, Stmt.Reads]
  simp only [round]

end Loop

/-- With both operands at least as long as the bound, a ranged premise reads only
what is there exactly if there are no rounds or the last one is in reach of the
second counter. -/
theorem subscriptsInBounds_iff {size : Expr → UInt64} {lhs rhs bound : StringType}
    (oprt : EqualityOperator) (lhsIdx rhsIdx : IntegerType)
    (lhsLong : size (.ident bound) ≤ size (.ident lhs)) (rhsLong : size (.ident bound) ≤ size (.ident rhs)) :
    SubscriptsInBounds size (equalityStmts (rangedEquality lhs rhs oprt lhsIdx rhsIdx bound)) ↔
      (size (.ident bound)).toNat ≤ lhsIdx.toNat ∨
        rhsIdx.toNat + ((size (.ident bound)).toNat - 1 - lhsIdx.toNat) < (size (.ident rhs)).toNat := by
  have leftLong := UInt64.le_iff_toNat_le.mp lhsLong
  have small := (size (.ident rhs)).toNat_lt
  have smallBound := (size (.ident bound)).toNat_lt
  simp only [SubscriptsInBounds, readsList_rangedEquality]
  constructor
  · intro inBounds
    by_contra outside
    obtain ⟨someRounds, far⟩ := not_or.mp outside
    -- The second counter comes by the first index that is not there.
    have reached : ∃ k, lhsIdx.toNat + k < (size (.ident bound)).toNat ∧
        ¬ rhsIdx + .ofNat k < size (.ident rhs) := by
      by_cases start : rhsIdx.toNat < (size (.ident rhs)).toNat
      · refine ⟨(size (.ident rhs)).toNat - rhsIdx.toNat, by omega, fun less => ?_⟩
        have index := UInt64.lt_iff_toNat_lt.mp less
        rw [UInt64.toNat_add, UInt64.toNat_ofNat'] at index
        omega
      · refine ⟨0, by omega, fun less => start ?_⟩
        simpa using UInt64.lt_iff_toNat_lt.mp less
    obtain ⟨k, inside, notThere⟩ := reached
    obtain ⟨read, returned, rounds, member⟩ := @exists_rounds lhs rhs _ k _ rhsIdx inside
    exact notThere (inBounds read returned rounds rhs _ member)
  · intro condition read returned rounds name index member
    obtain ⟨k, inside, which⟩ := mem_of_rounds rounds member
    rw [UInt64.lt_iff_toNat_lt]
    rcases which with ⟨rfl, rfl⟩ | ⟨rfl, rfl⟩
    · rw [UInt64.toNat_add, UInt64.toNat_ofNat']
      omega
    · rw [UInt64.toNat_add, UInt64.toNat_ofNat']
      omega

/-- As many parameters as arguments, from the second on. -/
theorem fromSecond_in_bounds : SubscriptsInBounds (fun _ => 3)
    (equalityStmts (rangedEquality "ArgumentsTypes" "ParameterTypes" .operatorLte 1 1 "ParameterTypes")) :=
  (@subscriptsInBounds_iff (fun _ => 3) "ArgumentsTypes" "ParameterTypes" "ParameterTypes" .operatorLte 1 1
    (UInt64.le_refl 3) (UInt64.le_refl 3)).mpr (.inr (by decide))

/-- The tutorial compares each argument with the parameter behind its own, and
reads one parameter too many. -/
theorem staticMethodStaticDispatch_reads_outside :
    (SemanticAnalyzer.run ⟨true, true, false⟩ (.ofInference staticMethodStaticDispatch)).value = true ∧
      .inferenceEquality (rangedEquality "ArgumentsTypes" "ParameterTypes" .operatorLte 0 1 "ParameterTypes")
        ∈ staticMethodStaticDispatch.allPremises ∧
      ¬ SubscriptsInBounds (fun _ => 1) (equalityStmts
        (rangedEquality "ArgumentsTypes" "ParameterTypes" .operatorLte 0 1 "ParameterTypes")) := by
  refine ⟨by decide, .tail _ (.tail _ (.head _)), fun inBounds => ?_⟩
  have rounds : Rounds 1 (ReadsPair "ArgumentsTypes" "ParameterTypes") 0 1
      [("ArgumentsTypes", 0), ("ParameterTypes", 1)] true := .left (by decide) rfl
  have reads := (@readsList_rangedEquality (fun _ => 1) "ArgumentsTypes" "ParameterTypes" .operatorLte 0 1
    "ParameterTypes" (fun _ => none) _ true).mpr rounds
  have below : (1 : UInt64) < 1 := inBounds _ true reads "ParameterTypes" 1 (.tail _ (.head _))
  exact absurd below (by decide)

end Synthesizer

end Snowlake
