import Snowlake.Synth.Synthesizer

/-! # The text of an identifiable

`CanonicalizeASTIdentifiable` writes a dot before each identifier but the first,
`synthesizeIdentifiable` one behind each but the last.  Here are their loops over
the index, on streams.  Both write the identifiers joined by dots, and as no
identifier holds a dot they can be read back.
-/

namespace Snowlake

/-! ## The loops

A stream is what was written to it.
-/

namespace Streams

/-- The loop of `CanonicalizeASTIdentifiable` from `i` on. -/
def canonicalizeLoop (identifiers : List ASTIdentifier) (i : Nat) (stream : String) : String :=
  if inRange : i < identifiers.length then
    canonicalizeLoop identifiers (i + 1) (stream ++ "." ++ identifiers[i])
  else stream
termination_by identifiers.length - i

def canonicalizeASTIdentifiable (identifiable : ASTIdentifiable) : String :=
  let identifiers := identifiable.identifiers
  let stream := if nonempty : identifiers ≠ [] then "" ++ identifiers.head nonempty else ""
  canonicalizeLoop identifiers 1 stream

/-- The loop of `synthesizeIdentifiable` from `i` on. -/
def synthesizeLoop (identifiers : List ASTIdentifier) (i : Nat) (ofsRef : String) : String :=
  if inRange : i < identifiers.length then
    let ofsRef := ofsRef ++ identifiers[i]
    let ofsRef := if i + 1 < identifiers.length then ofsRef ++ "." else ofsRef
    synthesizeLoop identifiers (i + 1) ofsRef
  else ofsRef
termination_by identifiers.length - i

def synthesizeIdentifiable (identifiable : ASTIdentifiable) (ofsRef : String) : String :=
  synthesizeLoop identifiable.identifiers 0 ofsRef

end Streams

/-! ## Texts -/

namespace ASTIdentifiable

/-- The identifiers with dots between them. -/
def text (identifiable : ASTIdentifiable) : String := ".".intercalate identifiable.identifiers

/-- There is an identifier, and none is empty or holds a dot. -/
structure Dotted (identifiable : ASTIdentifiable) : Prop where
  nonempty : identifiable.identifiers ≠ []
  identifiers : ∀ identifier ∈ identifiable.identifiers, identifier ≠ "" ∧ '.' ∉ identifier.toList

end ASTIdentifiable

/-- The parts of a text between its dots. -/
def splitAtDots (text : String) : List ASTIdentifier := (text.toList.splitOn '.').map String.ofList

/-- The part of a text before its first dot. -/
def beforeFirstDot (text : String) : ASTIdentifier := String.ofList (text.toList.takeWhile (· ≠ '.'))

/-- Dots before the later identifiers are dots between all of them. -/
theorem join_eq_intercalate (front : ASTIdentifier) (rest : List ASTIdentifier) :
    front ++ String.join (rest.map ("." ++ ·)) = ".".intercalate (front :: rest) := by
  induction rest generalizing front with
  | nil => simp
  | cons next rest ih =>
      rw [List.map_cons, String.join_cons, String.intercalate_cons_cons, ← ih next]
      simp only [String.append_assoc]

namespace Streams

/-- From an index on the loop writes the identifiers left, each behind a dot. -/
theorem canonicalizeLoop_eq (identifiers : List ASTIdentifier) (i : Nat) (stream : String) :
    canonicalizeLoop identifiers i stream =
      stream ++ String.join ((identifiers.drop i).map ("." ++ ·)) := by
  fun_induction canonicalizeLoop identifiers i stream with
  | case1 i stream inRange ih =>
      rw [ih, List.drop_eq_getElem_cons inRange, List.map_cons, String.join_cons]
      simp only [String.append_assoc]
  | case2 i stream done =>
      rw [List.drop_eq_nil_of_le (Nat.le_of_not_lt done)]
      simp

/-- From an index on the loop writes the identifiers left, with dots between them. -/
theorem synthesizeLoop_eq (identifiers : List ASTIdentifier) (i : Nat) (ofsRef : String) :
    synthesizeLoop identifiers i ofsRef = ofsRef ++ ".".intercalate (identifiers.drop i) := by
  fun_induction synthesizeLoop identifiers i ofsRef with
  | case1 i ofsRef inRange written separated ih =>
      rw [ih, List.drop_eq_getElem_cons inRange]
      by_cases later : i + 1 < identifiers.length
      · have behind : separated = ofsRef ++ identifiers[i] ++ "." := dif_pos later
        rw [behind, List.drop_eq_getElem_cons later, String.intercalate_cons_cons]
        simp only [String.append_assoc]
      · have last : separated = ofsRef ++ identifiers[i] := dif_neg later
        rw [last, List.drop_eq_nil_of_le (Nat.le_of_not_lt later)]
        simp
  | case2 i ofsRef done =>
      rw [List.drop_eq_nil_of_le (Nat.le_of_not_lt done)]
      simp

theorem canonicalizeASTIdentifiable_text (identifiable : ASTIdentifiable) :
    canonicalizeASTIdentifiable identifiable = identifiable.text := by
  obtain ⟨identifiers⟩ := identifiable
  rw [canonicalizeASTIdentifiable, canonicalizeLoop_eq, ASTIdentifiable.text]
  cases identifiers with
  | nil => rfl
  | cons front rest =>
      rw [← join_eq_intercalate]
      simp

theorem synthesizeIdentifiable_text (identifiable : ASTIdentifiable) (ofsRef : String) :
    synthesizeIdentifiable identifiable ofsRef = ofsRef ++ identifiable.text := by
  rw [synthesizeIdentifiable, synthesizeLoop_eq, List.drop_zero, ASTIdentifiable.text]

end Streams

namespace Synthesizer

theorem synthesizeIdentifiable_text (identifiable : ASTIdentifiable) :
    synthesizeIdentifiable identifiable = identifiable.text := by
  obtain ⟨identifiers⟩ := identifiable
  rw [synthesizeIdentifiable, ASTIdentifiable.text]
  simp only
  induction identifiers with
  | nil => rfl
  | cons root members ih =>
      cases members with
      | nil => exact String.intercalate_singleton.symm
      | cons member rest =>
          rw [synthesizeIdentifiable.go, ih, String.intercalate_cons_cons]
          exact List.cons_ne_nil member rest

end Synthesizer

/-! ## Reading back -/

/-- What stands before a dot, or before nothing, is the part before the first dot. -/
theorem beforeFirstDot_append {root behind : String} (absent : '.' ∉ root.toList)
    (stops : behind.toList.takeWhile (· ≠ '.') = []) : beforeFirstDot (root ++ behind) = root := by
  have unlike : ∀ c ∈ root.toList, decide (c ≠ '.') = true := by
    intro c inside
    simp only [decide_eq_true_eq]
    intro same
    exact absent (same ▸ inside)
  rw [beforeFirstDot, String.toList_append, List.takeWhile_append_of_pos unlike, stops, List.append_nil,
    String.ofList_toList]

namespace ASTIdentifiable.Dotted

variable {identifiable other : ASTIdentifiable}

/-- The parts of the text are the identifiers. -/
theorem splitAtDots_text (dotted : identifiable.Dotted) :
    splitAtDots identifiable.text = identifiable.identifiers := by
  have dotFree : ∀ part ∈ identifiable.identifiers.map String.toList, '.' ∉ part := by
    intro part member
    obtain ⟨identifier, inside, rfl⟩ := List.mem_map.mp member
    exact (dotted.identifiers identifier inside).2
  have joined : identifiable.text.toList = ['.'].intercalate (identifiable.identifiers.map String.toList) :=
    String.toList_intercalate
  rw [splitAtDots, joined, List.splitOn_intercalate '.' dotFree (by simpa using dotted.nonempty)]
  simp

/-- No other identifiable has the text. -/
theorem eq_of_text_eq (dotted : identifiable.Dotted) (dotted' : other.Dotted)
    (same : other.text = identifiable.text) : other = identifiable := by
  have identifiers : other.identifiers = identifiable.identifiers := by
    rw [← dotted'.splitAtDots_text, ← dotted.splitAtDots_text, same]
  cases other
  cases identifiable
  exact congrArg ASTIdentifiable.mk identifiers

/-- The text begins with the root, up to its first dot. -/
theorem beforeFirstDot_text (dotted : identifiable.Dotted) :
    beforeFirstDot identifiable.text = ASTUtils.getRootOfASTIdentifiable identifiable := by
  obtain ⟨identifiers⟩ := identifiable
  cases identifiers with
  | nil => exact absurd rfl dotted.nonempty
  | cons root members =>
      have absent := (dotted.identifiers root List.mem_cons_self).2
      change beforeFirstDot (".".intercalate (root :: members)) = root
      cases members with
      | nil =>
          have alone := @beforeFirstDot_append root "" absent rfl
          rw [String.intercalate_singleton]
          rwa [String.append_empty] at alone
      | cons member rest =>
          rw [String.intercalate_cons_cons, String.append_assoc]
          refine beforeFirstDot_append absent ?_
          rw [String.toList_append]
          rfl

end ASTIdentifiable.Dotted

/-- Both functions write one text, which is that in the code the synthesizer writes.
It determines the identifiers and begins with the root that the analyser looks up. -/
theorem canonicalizeASTIdentifiable_agrees (identifiable : ASTIdentifiable) :
    (∀ ofsRef, Streams.synthesizeIdentifiable identifiable ofsRef =
        ofsRef ++ Streams.canonicalizeASTIdentifiable identifiable) ∧
      Synthesizer.synthesizeIdentifiable identifiable = Streams.canonicalizeASTIdentifiable identifiable ∧
      (identifiable.Dotted →
        splitAtDots (Streams.canonicalizeASTIdentifiable identifiable) = identifiable.identifiers ∧
        (∀ other : ASTIdentifiable, other.Dotted →
          Streams.canonicalizeASTIdentifiable other = Streams.canonicalizeASTIdentifiable identifiable →
            other = identifiable) ∧
        beforeFirstDot (Streams.canonicalizeASTIdentifiable identifiable) =
          ASTUtils.getRootOfASTIdentifiable identifiable) := by
  simp only [Streams.canonicalizeASTIdentifiable_text]
  refine ⟨Streams.synthesizeIdentifiable_text identifiable,
    Synthesizer.synthesizeIdentifiable_text identifiable, fun dotted => ⟨dotted.splitAtDots_text, ?_, ?_⟩⟩
  · intro other dotted' same
    exact dotted.eq_of_text_eq dotted' same
  · exact dotted.beforeFirstDot_text

/-- A source of the tutorial. -/
def parameterTypes : ASTIdentifiable := ⟨["StaticMethodCallStmt", "callee", "parameter_types"]⟩

theorem parameterTypes_agrees :
    splitAtDots (Streams.canonicalizeASTIdentifiable parameterTypes) =
        ["StaticMethodCallStmt", "callee", "parameter_types"] ∧
      beforeFirstDot (Streams.canonicalizeASTIdentifiable parameterTypes) = "StaticMethodCallStmt" := by
  obtain ⟨parts, -, root⟩ := (canonicalizeASTIdentifiable_agrees parameterTypes).2.2 ⟨by decide, by decide⟩
  exact ⟨parts, root⟩

end Snowlake
