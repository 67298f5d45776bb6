import Snowlake.Synth.Reading
import Snowlake.Parse.Rendering
import Snowlake.Sema.WellFormed

/-! # The ordinals of the premises

Each inference premise begins with a comment that names its ordinal.  The counter
behind it is read before the premises of a while clause are visited and
incremented after them, so a premise that nests others shares its ordinal with
the first of them.
-/

namespace Snowlake

open Emitted

namespace Synthesizer

/-! ## Comments and premises -/

/-- The comments on premises; only fixtures write others. -/
def premiseComments (stmts : List Stmt) : List String :=
  stmts.filterMap fun
    | .comment text => if text = setupComment ∨ text = teardownComment then none else some text
    | _ => none

/-- The inference premises of a list, in the list's order. -/
def inferencePremises (premises : List ASTPremiseDefn) : List ASTInferencePremiseDefn :=
  premises.filterMap fun
    | .inferencePremise defn => some defn
    | .inferenceEquality _ => none

/-- The comment names `nth`, with one of the suffixes of an ordinal. -/
def NamesOrdinal (nth : Nat) (comment : String) : Prop :=
  ∃ suffix ∈ ["st", "nd", "rd", "th"], comment = "// This corresponds to the " ++ toString nth ++
    suffix ++ " premise rule in the inference definition."

/-- Unless comments are suppressed there is one above every inference premise of
the definition, and it names the position of the premise in document order. -/
structure OrdinalsExact (opts : Options) (defn : ASTInferenceDefn) (body : List Stmt) : Prop where
  annotated : opts.suppressAnnotationComments = false →
    (premiseComments body).length = (inferencePremises defn.allPremises).length
  exact : ∀ k comment, (premiseComments body)[k]? = some comment → NamesOrdinal (k + 1) comment

/-- No while clause of the definition has an inference premise in it. -/
def NoneNested (premises : List ASTPremiseDefn) : Prop :=
  ∀ source target body, .inferencePremise ⟨source, target, some body⟩ ∈ premises →
    inferencePremises (ASTPremiseDefn.documentOrderList body) = []

/-! ## The counter -/

mutual
/-- The numbers in the comments of a premise and those it nests. -/
def ordinals : ASTPremiseDefn → UInt32 → List UInt32
  | .inferencePremise ⟨_, _, none⟩, num => [num + 1]
  | .inferencePremise ⟨_, _, some body⟩, num => (num + 1) :: ordinalsList body num
  | .inferenceEquality _, _ => []

def ordinalsList : List ASTPremiseDefn → UInt32 → List UInt32
  | [], _ => []
  | head :: tail, num => ordinals head num ++ ordinalsList tail (num + .ofNat (ordinals head num).length)
end

@[simp] theorem inferencePremises_append (first second : List ASTPremiseDefn) :
    inferencePremises (first ++ second) = inferencePremises first ++ inferencePremises second :=
  List.filterMap_append

@[simp] theorem premiseComments_append (first second : List Stmt) :
    premiseComments (first ++ second) = premiseComments first ++ premiseComments second :=
  List.filterMap_append

mutual
theorem length_ordinals (premise : ASTPremiseDefn) (num : UInt32) :
    (ordinals premise num).length = (inferencePremises premise.documentOrder).length := by
  match premise with
  | .inferencePremise ⟨_, _, none⟩ => simp [ordinals, ASTPremiseDefn.documentOrder, inferencePremises]
  | .inferencePremise ⟨source, target, some body⟩ =>
      have inside := length_ordinalsList body num
      rw [ordinals, List.length_cons, inside, ASTPremiseDefn.documentOrder, inferencePremises]
      rfl
  | .inferenceEquality _ => simp [ordinals, ASTPremiseDefn.documentOrder, inferencePremises]

theorem length_ordinalsList (premises : List ASTPremiseDefn) (num : UInt32) :
    (ordinalsList premises num).length =
      (inferencePremises (ASTPremiseDefn.documentOrderList premises)).length := by
  match premises with
  | [] => rfl
  | head :: tail =>
      rw [ordinalsList, List.length_append, ASTPremiseDefn.documentOrderList, inferencePremises_append,
        List.length_append, length_ordinals head num, length_ordinalsList tail]
end

mutual
theorem advance_numPremisesProcessed (premise : ASTPremiseDefn) (numbering : Numbering) :
    (advance premise numbering).numPremisesProcessed = numbering.numPremisesProcessed +
      .ofNat (ordinals premise numbering.numPremisesProcessed).length := by
  match premise with
  | .inferencePremise ⟨_, target, none⟩ => rfl
  | .inferencePremise ⟨_, _, some body⟩ =>
      have inside := advanceList_numPremisesProcessed body numbering
      simp only [advance, inside, ordinals, List.length_cons, UInt32.ofNat_add, UInt32.add_assoc]
      rfl
  | .inferenceEquality _ => simp [advance, ordinals]

theorem advanceList_numPremisesProcessed (premises : List ASTPremiseDefn) (numbering : Numbering) :
    (advanceList premises numbering).numPremisesProcessed = numbering.numPremisesProcessed +
      .ofNat (ordinalsList premises numbering.numPremisesProcessed).length := by
  match premises with
  | [] => simp [advanceList, ordinalsList]
  | head :: tail =>
      have first := advance_numPremisesProcessed head numbering
      have rest := advanceList_numPremisesProcessed tail (advance head numbering)
      rw [advanceList, rest, first, ordinalsList, List.length_append, UInt32.ofNat_add, UInt32.add_assoc]
end

/-! ## The comments -/

/-- The buffer is long enough. -/
theorem premiseComment_eq (nth : UInt32) : premiseComment nth =
    "// This corresponds to the " ++ ordinal nth ++ " premise rule in the inference definition." := by
  have digits : (Nat.toDigits 10 nth.toNat).length ≤ 10 := by
    have below := UInt32.toNat_lt nth
    exact (Nat.length_toDigits_le_iff (by decide) (by decide)).mpr (by omega)
  have suffix : (ordinal nth).toList.length ≤ 12 := by
    rw [ordinal, String.toList_append, List.length_append, Nat.toString_eq_repr, Nat.toList_repr]
    split_ifs <;> exact Nat.add_le_add_right digits 2
  have short : ("This corresponds to the " ++ ordinal nth ++
      " premise rule in the inference definition.").toList.length ≤ 1023 := by
    simp only [String.toList_append, List.length_append]
    simp
    omega
  rw [premiseComment, snprintf, List.take_of_length_le short, String.ofList_toList, ← String.append_assoc,
    ← String.append_assoc]
  rfl

/-- The comment on a premise is not one of a fixture. -/
theorem premiseComment_ne (nth : UInt32) :
    premiseComment nth ≠ setupComment ∧ premiseComment nth ≠ teardownComment := by
  have starts : (premiseComment nth).toList.take 5 = "// Th".toList := by
    rw [premiseComment_eq, String.toList_append, String.toList_append]
    simp
  constructor
  · intro same
    rw [same] at starts
    simp [setupComment] at starts
  · intro same
    rw [same] at starts
    simp [teardownComment] at starts

section Comments

variable {opts : Options}

theorem premiseComments_plainPremiseStmts (nameId : UInt32) (source : ASTIdentifiable)
    (target : ASTDeductionTarget) : premiseComments (plainPremiseStmts nameId source target) = [] := by
  cases target <;> rfl

theorem premiseComments_setupStmts (source : ASTIdentifiable) (target : ASTDeductionTarget) :
    premiseComments (setupStmts source target) = [] := by
  simp [setupStmts, premiseComments]

theorem premiseComments_teardownStmts (source : ASTIdentifiable) (target : ASTDeductionTarget) :
    premiseComments (teardownStmts source target) = [] := by
  simp [teardownStmts, premiseComments]

theorem premiseComments_equalityStmts (defn : ASTInferenceEqualityDefn) :
    premiseComments (equalityStmts defn) = [] := by
  rw [equalityStmts]
  cases defn.rangeClause <;> rfl

/-- The comment on a premise that the counter is at. -/
def commentOf (opts : Options) (nth : UInt32) : List String :=
  if opts.suppressAnnotationComments then [] else [premiseComment nth]

theorem premiseComments_annotationLines (numbering : Numbering) :
    premiseComments (annotationLines opts numbering) =
      commentOf opts (numbering.numPremisesProcessed + 1) := by
  rw [annotationLines, commentOf]
  split
  · rfl
  · have different := premiseComment_ne (numbering.numPremisesProcessed + 1)
    simp [premiseComments, different]

mutual
theorem premiseComments_premiseStmts (premise : ASTPremiseDefn) (numbering : Numbering) :
    premiseComments (premiseStmts opts premise numbering) =
      (ordinals premise numbering.numPremisesProcessed).flatMap (commentOf opts) := by
  match premise with
  | .inferencePremise ⟨source, target, none⟩ =>
      rw [premiseStmts, premiseComments_append, premiseComments_annotationLines,
        premiseComments_plainPremiseStmts, ordinals, List.flatMap_singleton, List.append_nil]
  | .inferencePremise ⟨source, target, some body⟩ =>
      have inside := premiseComments_premiseListStmts body numbering
      rw [premiseStmts, premiseComments_append, premiseComments_append, premiseComments_append,
        premiseComments_annotationLines, premiseComments_setupStmts, premiseComments_teardownStmts,
        inside, ordinals, List.flatMap_cons, List.append_nil, List.append_nil]
  | .inferenceEquality defn =>
      rw [premiseStmts, premiseComments_equalityStmts, ordinals]
      rfl

theorem premiseComments_premiseListStmts (premises : List ASTPremiseDefn) (numbering : Numbering) :
    premiseComments (premiseListStmts opts premises numbering) =
      (ordinalsList premises numbering.numPremisesProcessed).flatMap (commentOf opts) := by
  match premises with
  | [] => rfl
  | head :: tail =>
      rw [premiseListStmts, premiseComments_append, premiseComments_premiseStmts head numbering,
        premiseComments_premiseListStmts tail, advance_numPremisesProcessed, ordinalsList,
        List.flatMap_append]
end

/-- The comments on the premises of a body are those of its ordinals. -/
theorem premiseComments_bodyStmts (defn : ASTInferenceDefn) (nameId : UInt32) :
    premiseComments (bodyStmts opts defn nameId) =
      (ordinalsList defn.premiseDefns 0).flatMap (commentOf opts) := by
  rw [bodyStmts, premiseComments_append, premiseComments_premiseListStmts]
  exact List.append_nil _

end Comments

/-! ## Numerals in a text -/

/-- A numeral that ends where no digit follows determines its number. -/
theorem numeral_inj {first second : Nat} {left right : List Char}
    (same : Nat.toDigits 10 first ++ left = Nat.toDigits 10 second ++ right)
    (leftEnds : ∀ c ∈ left.head?, c.isDigit = false) (rightEnds : ∀ c ∈ right.head?, c.isDigit = false) :
    first = second := by
  have cut (n : Nat) {rest : List Char} (ends : ∀ c ∈ rest.head?, c.isDigit = false) :
      (Nat.toDigits 10 n ++ rest).takeWhile Char.isDigit = Nat.toDigits 10 n := by
    have digits : ∀ c ∈ Nat.toDigits 10 n, c.isDigit = true := fun c member =>
      Nat.isDigit_of_mem_toDigits (by decide) (by decide) member
    rw [List.takeWhile_append_of_pos digits]
    cases rest with
    | nil => simp
    | cons c rest => rw [List.takeWhile_cons_of_neg (by simp [ends c rfl]), List.append_nil]
  have numerals := congrArg (List.takeWhile Char.isDigit) same
  rw [cut first leftEnds, cut second rightEnds] at numerals
  have values := congrArg (Nat.ofDigitChars 10 · 0) numerals
  simpa only [Nat.ofDigitChars_ten_toDigits] using values

/-- A comment names the number that its counter shows. -/
theorem namesOrdinal_premiseComment_iff (nth : Nat) (num : UInt32) :
    NamesOrdinal nth (premiseComment num) ↔ num.toNat = nth := by
  have spelled : ∃ suffix ∈ ["st", "nd", "rd", "th"], ordinal num = toString num.toNat ++ suffix := by
    rw [ordinal]
    split_ifs <;> exact ⟨_, by simp, rfl⟩
  obtain ⟨suffix, member, spells⟩ := spelled
  rw [premiseComment_eq, spells]
  constructor
  · rintro ⟨other, memberOther, same⟩
    have texts := congrArg String.toList same
    simp only [String.toList_append, List.append_assoc, List.append_cancel_left_eq,
      Nat.toString_eq_repr, Nat.toList_repr] at texts
    have stops : ∀ suffix ∈ ["st", "nd", "rd", "th"], ∀ rest : List Char,
        ∀ c ∈ (suffix.toList ++ rest).head?, c.isDigit = false := by
      intro suffix member rest c head
      simp only [List.mem_cons, List.not_mem_nil, or_false] at member
      rcases member with rfl | rfl | rfl | rfl <;> cases head <;> rfl
    exact numeral_inj texts (stops suffix member _) (stops other memberOther _)
  · rintro rfl
    exact ⟨suffix, member, by simp only [String.append_assoc]⟩

/-! ## When the ordinals are exact -/

/-- The numbers count up by one from `start`. -/
def Consecutive (start : Nat) (numbers : List UInt32) : Prop :=
  ∀ k nth, numbers[k]? = some nth → nth.toNat = start + k

theorem Consecutive.tail {start : Nat} {head : UInt32} {tail : List UInt32}
    (consecutive : Consecutive start (head :: tail)) : Consecutive (start + 1) tail := by
  intro k nth found
  rw [consecutive (k + 1) nth found]
  omega

theorem Consecutive.append {start : Nat} {first second : List UInt32}
    (consecutive : Consecutive start (first ++ second)) :
    Consecutive start first ∧ Consecutive (start + first.length) second := by
  constructor
  · intro k nth found
    have inside := (List.getElem?_eq_some_iff.mp found).1
    exact consecutive k nth (by rw [List.getElem?_append_left inside, found])
  · intro k nth found
    have shifted := consecutive (first.length + k) nth (by
      rw [List.getElem?_append_right (Nat.le_add_right ..), Nat.add_sub_cancel_left, found])
    omega

mutual
/-- The first comment of a premise has the number the counter is at. -/
theorem head_ordinals (premise : ASTPremiseDefn) (num : UInt32) :
    ∀ nth ∈ (ordinals premise num).head?, nth = num + 1 := by
  match premise with
  | .inferencePremise ⟨_, _, none⟩ => simp [ordinals]
  | .inferencePremise ⟨_, _, some body⟩ => simp [ordinals]
  | .inferenceEquality _ => simp [ordinals]

theorem head_ordinalsList (premises : List ASTPremiseDefn) (num : UInt32) :
    ∀ nth ∈ (ordinalsList premises num).head?, nth = num + 1 := by
  match premises with
  | [] => simp [ordinalsList]
  | head :: tail =>
      have first := head_ordinals head num
      have rest := head_ordinalsList tail num
      rw [ordinalsList]
      cases counted : ordinals head num with
      | nil => simpa using rest
      | cons nth more => simpa [counted] using first
end

theorem ordinalsList_eq_nil_iff (premises : List ASTPremiseDefn) (num : UInt32) :
    ordinalsList premises num = [] ↔
      inferencePremises (ASTPremiseDefn.documentOrderList premises) = [] := by
  rw [← List.length_eq_zero_iff, length_ordinalsList, List.length_eq_zero_iff]

theorem noneNested_append {first second : List ASTPremiseDefn} :
    NoneNested (first ++ second) ↔ NoneNested first ∧ NoneNested second := by
  simp only [NoneNested, List.mem_append]
  exact ⟨fun all => ⟨fun s t b member => all s t b (.inl member),
      fun s t b member => all s t b (.inr member)⟩,
    fun both s t b member => member.elim (both.1 s t b) (both.2 s t b)⟩

/-- Premises without inference premises nest none. -/
theorem noneNested_of_eq_nil {premises : List ASTPremiseDefn} (none : inferencePremises premises = []) :
    NoneNested premises := by
  intro source target body member
  have counted : (⟨source, target, some body⟩ : ASTInferencePremiseDefn) ∈ inferencePremises premises :=
    List.mem_filterMap.mpr ⟨_, member, rfl⟩
  rw [none] at counted
  cases counted

mutual
/-- A premise that nests another shares its number with the first one it nests. -/
theorem noneNested_of_consecutive {start : Nat} {premise : ASTPremiseDefn} {num : UInt32}
    (consecutive : Consecutive start (ordinals premise num)) : NoneNested premise.documentOrder := by
  match premise with
  | .inferencePremise ⟨_, _, none⟩ => simp [ASTPremiseDefn.documentOrder, NoneNested]
  | .inferencePremise ⟨source, target, some body⟩ =>
      rw [ordinals] at consecutive
      have own := consecutive 0 (num + 1) rfl
      have nothing : ordinalsList body num = [] := by
        cases counted : ordinalsList body num with
        | nil => rfl
        | cons nth more =>
            have same : nth = num + 1 := head_ordinalsList body num nth (by rw [counted]; rfl)
            have next := consecutive.tail 0 nth (by rw [counted]; rfl)
            rw [same] at next
            omega
      have none := (ordinalsList_eq_nil_iff body num).mp nothing
      rw [ASTPremiseDefn.documentOrder]
      intro source' target' body' member
      rcases List.mem_cons.mp member with same | inside
      · cases same
        exact none
      · exact noneNested_of_eq_nil none source' target' body' inside
  | .inferenceEquality _ => simp [ASTPremiseDefn.documentOrder, NoneNested]

theorem noneNested_of_consecutive_list {start : Nat} {premises : List ASTPremiseDefn} {num : UInt32}
    (consecutive : Consecutive start (ordinalsList premises num)) :
    NoneNested (ASTPremiseDefn.documentOrderList premises) := by
  match premises with
  | [] => simp [ASTPremiseDefn.documentOrderList, NoneNested]
  | head :: tail =>
      obtain ⟨first, rest⟩ := consecutive.append
      rw [ASTPremiseDefn.documentOrderList, noneNested_append]
      exact ⟨noneNested_of_consecutive first, noneNested_of_consecutive_list rest⟩
end

theorem ordinals_of_noneNested {premise : ASTPremiseDefn} (flat : NoneNested premise.documentOrder)
    (num : UInt32) : ordinals premise num =
      (List.range (ordinals premise num).length).map fun k => num + 1 + .ofNat k := by
  match premise with
  | .inferencePremise ⟨_, _, none⟩ => simp [ordinals]
  | .inferencePremise ⟨source, target, some body⟩ =>
      have inside := (ordinalsList_eq_nil_iff body num).mpr
        (flat source target body (by simp [ASTPremiseDefn.documentOrder]))
      simp [ordinals, inside]
  | .inferenceEquality _ => simp [ordinals]

/-- Without nesting the counter counts the premises. -/
theorem ordinalsList_of_noneNested {premises : List ASTPremiseDefn}
    (flat : NoneNested (ASTPremiseDefn.documentOrderList premises)) (num : UInt32) :
    ordinalsList premises num =
      (List.range (ordinalsList premises num).length).map fun k => num + 1 + .ofNat k := by
  induction premises generalizing num with
  | nil => rfl
  | cons head tail ih =>
      rw [ASTPremiseDefn.documentOrderList, noneNested_append] at flat
      have first := ordinals_of_noneNested flat.1 num
      have rest := ih flat.2 (num + .ofNat (ordinals head num).length)
      rw [ordinalsList, List.length_append, List.range_add, List.map_append, ← first, rest,
        List.length_map, List.length_range, List.map_map]
      congr 1
      refine List.map_congr_left fun k _ => ?_
      simp only [Function.comp_apply, UInt32.ofNat_add]
      ac_rfl

theorem consecutive_range_iff (count : Nat) :
    Consecutive 1 ((List.range count).map fun k => 0 + 1 + UInt32.ofNat k) ↔ count < 2 ^ 32 := by
  constructor
  · intro consecutive
    by_contra many
    have last := consecutive (2 ^ 32 - 1) (0 + 1 + UInt32.ofNat (2 ^ 32 - 1)) (by
      rw [List.getElem?_map, List.getElem?_range (by omega)]
      rfl)
    simp at last
  · intro few k nth found
    rw [List.getElem?_map, Option.map_eq_some_iff] at found
    obtain ⟨j, inRange, rfl⟩ := found
    obtain ⟨below, rfl⟩ := List.getElem?_eq_some_iff.mp inRange
    simp only [List.length_range] at below
    simp only [List.getElem_range, UInt32.toNat_add, UInt32.toNat_ofNat', UInt32.reduceToNat]
    omega

/-- Without comments there is nothing to number. -/
theorem ordinalsExact_of_suppressed {opts : Options} (suppressed : opts.suppressAnnotationComments = true)
    (defn : ASTInferenceDefn) (nameId : UInt32) :
    OrdinalsExact opts defn (bodyStmts opts defn nameId) := by
  have nothing : premiseComments (bodyStmts opts defn nameId) = [] := by
    rw [premiseComments_bodyStmts]
    simp [commentOf, suppressed]
  refine ⟨fun shown => ?_, fun k comment found => ?_⟩
  · rw [suppressed] at shown
    cases shown
  · rw [nothing] at found
    cases found

theorem length_ordinalsList_premiseDefns (defn : ASTInferenceDefn) :
    (ordinalsList defn.premiseDefns 0).length = (inferencePremises defn.allPremises).length :=
  length_ordinalsList defn.premiseDefns 0

/-- With comments the numbers have to count up from one. -/
theorem ordinalsExact_iff_consecutive {opts : Options} (shown : opts.suppressAnnotationComments = false)
    (defn : ASTInferenceDefn) (nameId : UInt32) :
    OrdinalsExact opts defn (bodyStmts opts defn nameId) ↔
      Consecutive 1 (ordinalsList defn.premiseDefns 0) := by
  have listed : premiseComments (bodyStmts opts defn nameId) =
      (ordinalsList defn.premiseDefns 0).map premiseComment := by
    have each : commentOf opts = fun nth => [premiseComment nth] := by
      funext nth
      simp [commentOf, shown]
    rw [premiseComments_bodyStmts, each, List.map_eq_flatMap]
  constructor
  · intro exact k nth found
    have named := exact.exact k (premiseComment nth) (by rw [listed, List.getElem?_map, found]; rfl)
    rw [(namesOrdinal_premiseComment_iff _ nth).mp named, Nat.add_comm]
  · intro consecutive
    refine ⟨fun _ => ?_, fun k comment found => ?_⟩
    · rw [listed, List.length_map, length_ordinalsList_premiseDefns]
    · rw [listed, List.getElem?_map, Option.map_eq_some_iff] at found
      obtain ⟨nth, atPosition, rfl⟩ := found
      rw [namesOrdinal_premiseComment_iff, consecutive k nth atPosition, Nat.add_comm]

/-- The ordinals of a definition are the positions of its premises exactly if no
premise is nested in a while clause and the counter does not wrap around. -/
theorem ordinalsExact_iff (opts : Options) (defn : ASTInferenceDefn) (nameId : UInt32) :
    OrdinalsExact opts defn (bodyStmts opts defn nameId) ↔
      (opts.suppressAnnotationComments = false →
        NoneNested defn.allPremises ∧ (inferencePremises defn.allPremises).length < 2 ^ 32) := by
  cases suppressed : opts.suppressAnnotationComments with
  | true =>
      constructor
      · intro _ shown
        cases shown
      · intro _
        exact ordinalsExact_of_suppressed suppressed defn nameId
  | false =>
      rw [ordinalsExact_iff_consecutive suppressed]
      constructor
      · intro consecutive _
        have flat := noneNested_of_consecutive_list consecutive
        rw [ordinalsList_of_noneNested flat, length_ordinalsList_premiseDefns, consecutive_range_iff]
          at consecutive
        exact ⟨flat, consecutive⟩
      · intro condition
        obtain ⟨flat, few⟩ := condition rfl
        rw [ordinalsList_of_noneNested flat, length_ordinalsList_premiseDefns, consecutive_range_iff]
        exact few

/-- A scope is typed under an assumption on the variable it binds. -/
def letExpression : ASTInferenceDefn where
  name := "LetExpression"
  globalDecls := []
  arguments := [⟨"expr", "ASTExpr"⟩]
  premiseDefns := [
    .inferencePremise ⟨⟨["expr", "init"]⟩, .singular "InitType", none⟩,
    .inferencePremise ⟨⟨["expr", "variable"]⟩, .singular "InitType", some [
      .inferencePremise ⟨⟨["expr", "scope"]⟩, .singular "ScopeType", none⟩]⟩]
  propositionDefn := ⟨.singular "ScopeType"⟩

/-- The comment above the third premise says `2nd`, as the one above the second. -/
theorem letExpression_shares_ordinal :
    (SemanticAnalyzer.run ⟨true, true, false⟩ (.ofInference letExpression)).value = true ∧
      ¬ OrdinalsExact ⟨false, false, "", ""⟩ letExpression
        (bodyStmts ⟨false, false, "", ""⟩ letExpression 0) := by
  refine ⟨by decide, fun exact => ?_⟩
  have third := exact.exact 2 (premiseComment 2) (by rw [premiseComments_bodyStmts]; rfl)
  have number := (namesOrdinal_premiseComment_iff 3 2).mp third
  cases number

end Synthesizer

end Snowlake
