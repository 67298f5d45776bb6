import Mathlib.Data.List.Basic

/-! # Languages with values, and parsers for them

A language relates lists of tokens to the values they stand for.  Here are the
languages of repetitions, with left recursion as a shift-reduce parser prefers
it, parsers with one token of lookahead, and what it takes for a parser to read
a language.
-/

namespace Parsing

variable {τ α β : Type}

abbrev Language (τ α : Type) := List τ → α → Prop

/-! ## Repetitions -/

/-- Any number of items. -/
inductive ListOf (item : Language τ α) : Language τ (List α)
  | nil : ListOf item [] []
  | snoc {tokens values more value} : ListOf item tokens values → item more value →
      ListOf item (tokens ++ more) (values ++ [value])

/-- Items with a separator between any two, at least one. -/
inductive SeparatedBy (separator : τ) (item : Language τ α) : Language τ (List α)
  | one {tokens value} : item tokens value → SeparatedBy separator item tokens [value]
  | snoc {tokens values more value} : SeparatedBy separator item tokens values → item more value →
      SeparatedBy separator item (tokens ++ separator :: more) (values ++ [value])

/-- The texts of a list of values, with a separator between any two. -/
def join (separator : τ) (print : α → List τ) : List α → List τ
  | [] => []
  | value :: values => print value ++ values.flatMap fun value => separator :: print value

theorem forall_mem_join {separator : τ} {print : α → List τ} {values : List α} {good : τ → Prop}
    (between : good separator) (printed : ∀ value ∈ values, ∀ token ∈ print value, good token) :
    ∀ token ∈ join separator print values, good token := by
  cases values with
  | nil => nofun
  | cons value values =>
      simp only [join, List.forall_mem_append, List.forall_mem_flatMap, List.forall_mem_cons]
      exact ⟨printed value (by simp), fun other member =>
        ⟨between, printed other (List.mem_cons_of_mem _ member)⟩⟩

section Repetitions

variable {item : Language τ α} {separator : τ}

theorem ListOf.cons {first tokens : List τ} {value : α} {values : List α} (head : item first value)
    (tail : ListOf item tokens values) : ListOf item (first ++ tokens) (value :: values) := by
  induction tail with
  | nil => simpa using ListOf.nil.snoc head
  | snoc _ last ih => simpa using ih.snoc last

theorem ListOf.nil_iff {tokens : List τ} : ListOf item tokens [] ↔ tokens = [] := by
  constructor
  · generalize same : ([] : List α) = values
    rintro (_ | _)
    · rfl
    · simp at same
  · rintro rfl
    exact .nil

theorem ListOf.uncons {tokens : List τ} {value : α} {values : List α}
    (list : ListOf item tokens (value :: values)) :
    ∃ first more, tokens = first ++ more ∧ item first value ∧ ListOf item more values := by
  generalize same : value :: values = whole at list
  induction list generalizing value values with
  | nil => cases same
  | @snoc tokens front last _ before final ih =>
      cases front with
      | nil =>
          obtain ⟨rfl, rfl⟩ := List.cons.inj same
          obtain rfl := ListOf.nil_iff.mp before
          exact ⟨last, [], by simp, final, .nil⟩
      | cons head front =>
          obtain ⟨rfl, rfl⟩ := List.cons.inj same
          obtain ⟨first, more, rfl, isItem, rest⟩ := ih rfl
          exact ⟨first, more ++ last, List.append_assoc .., isItem, rest.snoc final⟩

theorem ListOf.flatMap {print : α → List τ} {values : List α}
    (printed : ∀ value ∈ values, item (print value) value) :
    ListOf item (values.flatMap print) values := by
  induction values with
  | nil => exact .nil
  | cons value values ih =>
      exact .cons (printed value (by simp)) (ih fun other member => printed other (by simp [member]))

/-- Every value has its tokens somewhere in the list. -/
theorem ListOf.exists_of_mem {tokens : List τ} {values : List α} (list : ListOf item tokens values) :
    ∀ value ∈ values, ∃ part, item part value ∧ part <:+: tokens := by
  induction list with
  | nil => nofun
  | @snoc tokens values more last _ isItem ih =>
      intro value member
      rcases List.mem_append.mp member with before | isLast
      · obtain ⟨part, isPart, inside⟩ := ih value before
        exact ⟨part, isPart, inside.trans (List.prefix_append _ _).isInfix⟩
      · obtain rfl := List.mem_singleton.mp isLast
        exact ⟨more, isItem, (List.suffix_append _ _).isInfix⟩

theorem SeparatedBy.exists_of_mem {tokens : List τ} {values : List α}
    (list : SeparatedBy separator item tokens values) :
    ∀ value ∈ values, ∃ part, item part value ∧ part <:+: tokens := by
  induction list with
  | @one tokens only isItem =>
      intro value member
      obtain rfl := List.mem_singleton.mp member
      exact ⟨tokens, isItem, List.infix_rfl⟩
  | @snoc tokens values more last _ isItem ih =>
      intro value member
      rcases List.mem_append.mp member with before | isLast
      · obtain ⟨part, isPart, inside⟩ := ih value before
        exact ⟨part, isPart, inside.trans (List.prefix_append _ _).isInfix⟩
      · obtain rfl := List.mem_singleton.mp isLast
        exact ⟨more, isItem, ((List.suffix_cons _ _).trans (List.suffix_append _ _)).isInfix⟩

theorem SeparatedBy.ne_nil {tokens : List τ} {values : List α}
    (list : SeparatedBy separator item tokens values) : values ≠ [] := by
  cases list <;> simp

theorem SeparatedBy.cons {first tokens : List τ} {value : α} {values : List α}
    (head : item first value) (tail : SeparatedBy separator item tokens values) :
    SeparatedBy separator item (first ++ separator :: tokens) (value :: values) := by
  induction tail with
  | one last => exact (SeparatedBy.one head).snoc last
  | snoc _ last ih => simpa using ih.snoc last

theorem SeparatedBy.uncons {tokens : List τ} {value : α} {values : List α}
    (list : SeparatedBy separator item tokens (value :: values)) :
    (values = [] ∧ item tokens value) ∨ ∃ first more, tokens = first ++ separator :: more ∧
      item first value ∧ SeparatedBy separator item more values := by
  generalize same : value :: values = whole at list
  induction list generalizing value values with
  | one only =>
      obtain ⟨rfl, rfl⟩ := List.cons.inj same
      exact .inl ⟨rfl, only⟩
  | @snoc tokens front last _ before final ih =>
      cases front with
      | nil => exact absurd rfl before.ne_nil
      | cons head front =>
          obtain ⟨rfl, rfl⟩ := List.cons.inj same
          right
          rcases ih rfl with ⟨rfl, isItem⟩ | ⟨first, more, rfl, isItem, rest⟩
          · exact ⟨tokens, last, rfl, isItem, .one final⟩
          · exact ⟨first, more ++ separator :: last, by simp, isItem, rest.snoc final⟩

theorem SeparatedBy.join {print : α → List τ} {values : List α} (nonempty : values ≠ [])
    (printed : ∀ value ∈ values, item (print value) value) :
    SeparatedBy separator item (join separator print values) values := by
  induction values with
  | nil => exact absurd rfl nonempty
  | cons value values ih =>
      have head := printed value (by simp)
      cases values with
      | nil => simpa [Parsing.join] using SeparatedBy.one head
      | cons second values =>
          have tail := ih (by simp) fun other member => printed other (by simp [member])
          simpa [Parsing.join] using SeparatedBy.cons head tail

/-- Tokens of the language are some, and the first of them passes. -/
def StartsWith (language : Language τ α) (passes : τ → Bool) : Prop :=
  ∀ tokens value, language tokens value → tokens.head?.any passes = true

variable {passes : τ → Bool}

theorem StartsWith.ne_nil (starts : StartsWith item passes) {tokens : List τ} {value : α}
    (isItem : item tokens value) : tokens ≠ [] := by
  rintro rfl
  cases starts _ _ isItem

theorem StartsWith.append (starts : StartsWith item passes) {tokens : List τ} {value : α}
    (isItem : item tokens value) (rest : List τ) : (tokens ++ rest).head?.any passes = true := by
  rw [List.head?_append_of_ne_nil _ (starts.ne_nil isItem)]
  exact starts _ _ isItem

theorem StartsWith.head?_ne (starts : StartsWith item passes) {tokens : List τ} {value : α}
    (isItem : item tokens value) (rest : List τ) {token : τ} (rejected : passes token = false) :
    ¬ (tokens ++ rest).head? = some token := by
  intro same
  have passed := starts.append isItem rest
  rw [same, Option.any_some, rejected] at passed
  cases passed

theorem StartsWith.separatedBy (starts : StartsWith item passes) :
    StartsWith (SeparatedBy separator item) passes := by
  intro tokens values list
  induction list with
  | one isItem => exact starts _ _ isItem
  | snoc _ _ ih =>
      rw [List.head?_append_of_ne_nil]
      · exact ih
      · rintro rfl
        cases ih

end Repetitions

/-! ## Parsers -/

/-- A parser takes tokens from the start of its input, or fails. -/
abbrev Parser (τ : Type) := StateT (List τ) Option

/-- One token, if it has a value. -/
def take (read : τ → Option α) : Parser τ α
  | [] => none
  | token :: rest => (read token).map (·, rest)

def expect [DecidableEq τ] (token : τ) : Parser τ Unit :=
  take fun other => if other = token then some () else none

/-- The token, if it is next. -/
def accept [DecidableEq τ] (token : τ) : Parser τ Bool
  | [] => some (false, [])
  | other :: rest => if other = token then some (true, rest) else some (false, other :: rest)

/-- Does the next token pass? -/
def next (passes : τ → Bool) : Parser τ Bool := fun input => some (input.head?.any passes, input)

/-- Does the token behind the next one pass? -/
def nextButOne (passes : τ → Bool) : Parser τ Bool := fun input => some (input[1]?.any passes, input)

/-- Items as long as one starts, at most as many as the fuel. -/
def many (starts : τ → Bool) (item : Parser τ α) : Nat → Parser τ (List α)
  | 0 => pure []
  | fuel + 1 => do
      if ← next starts then
        let value ← item
        let values ← many starts item fuel
        return value :: values
      else return []

/-- Items with separators, at most as many as the fuel. -/
def separated [DecidableEq τ] (separator : τ) (item : Parser τ α) : Nat → Parser τ (List α)
  | 0 => failure
  | fuel + 1 => do
      let value ← item
      if ← accept separator then
        let values ← separated separator item fuel
        return value :: values
      else return [value]

section Steps

variable {input rest : List τ}

@[simp] theorem pure_apply (value : α) : (pure value : Parser τ α) input = some (value, input) := rfl

theorem pure_eq_some {value result : α} :
    (pure value : Parser τ α) input = some (result, rest) ↔ value = result ∧ input = rest := by
  change some (value, input) = some (result, rest) ↔ _
  simp

theorem bind_eq_some {parser : Parser τ α} {next : α → Parser τ β} {result : β} :
    (parser >>= next) input = some (result, rest) ↔
      ∃ value more, parser input = some (value, more) ∧ next value more = some (result, rest) := by
  change (parser input).bind (fun step => next step.1 step.2) = some (result, rest) ↔ _
  simp [Option.bind_eq_some_iff]

theorem bind_eq {parser : Parser τ α} {next : α → Parser τ β} {value : α} {more : List τ}
    (first : parser input = some (value, more)) : (parser >>= next) input = next value more := by
  change (parser input).bind (fun step => next step.1 step.2) = _
  rw [first, Option.bind_some]

@[simp] theorem next_bind {passes : τ → Bool} {then_ : Bool → Parser τ β} :
    (next passes >>= then_) input = then_ (input.head?.any passes) input := rfl

@[simp] theorem nextButOne_bind {passes : τ → Bool} {then_ : Bool → Parser τ β} :
    (nextButOne passes >>= then_) input = then_ (input[1]?.any passes) input := rfl

theorem take_eq_some {read : τ → Option α} {value : α} :
    take read input = some (value, rest) ↔
      ∃ token, read token = some value ∧ input = token :: rest := by
  cases input with
  | nil => simp [take]
  | cons token more =>
      simp only [take, Option.map_eq_some_iff, Prod.mk.injEq, List.cons.injEq]
      constructor
      · rintro ⟨_, found, rfl, rfl⟩
        exact ⟨token, found, rfl, rfl⟩
      · rintro ⟨_, found, rfl, rfl⟩
        exact ⟨value, found, rfl, rfl⟩

variable [DecidableEq τ]

theorem expect_eq_some {token : τ} {result : Unit} :
    expect token input = some (result, rest) ↔ input = token :: rest := by
  simp [expect, take_eq_some]

theorem accept_eq_true {token : τ} :
    accept token input = some (true, rest) ↔ input = token :: rest := by
  cases input with
  | nil => simp [accept]
  | cons other more =>
      by_cases same : other = token <;> simp [accept, same]

theorem accept_eq_false {token : τ} :
    accept token input = some (false, rest) ↔ input = rest ∧ input.head? ≠ some token := by
  cases input with
  | nil => simp [accept]
  | cons other more =>
      by_cases same : other = token <;> simp [accept, same]

theorem expect_bind_eq_some {token : τ} {next : Unit → Parser τ β} {result : β} :
    (expect token >>= next) input = some (result, rest) ↔
      ∃ more, input = token :: more ∧ next () more = some (result, rest) := by
  simp only [bind_eq_some, expect_eq_some]
  exact ⟨fun ⟨_, more, same, read⟩ => ⟨more, same, read⟩,
    fun ⟨more, same, read⟩ => ⟨(), more, same, read⟩⟩

theorem accept_bind_eq_some {token : τ} {next : Bool → Parser τ β} {result : β} :
    (accept token >>= next) input = some (result, rest) ↔
      (∃ more, input = token :: more ∧ next true more = some (result, rest)) ∨
        (¬ input.head? = some token ∧ next false input = some (result, rest)) := by
  simp only [bind_eq_some, Bool.exists_bool, accept_eq_true, accept_eq_false, ne_eq]
  rw [or_comm]
  refine or_congr Iff.rfl ⟨?_, fun ⟨other, read⟩ => ⟨input, ⟨rfl, other⟩, read⟩⟩
  rintro ⟨_, ⟨rfl, other⟩, read⟩
  exact ⟨other, read⟩

@[simp] theorem expect_bind {token : τ} {next : Unit → Parser τ β} :
    (expect token >>= next) (token :: rest) = next () rest :=
  bind_eq (expect_eq_some.mpr rfl)

@[simp] theorem accept_bind {token : τ} {next : Bool → Parser τ β} :
    (accept token >>= next) (token :: rest) = next true rest :=
  bind_eq (accept_eq_true.mpr rfl)

theorem accept_bind_of_ne {token : τ} {next : Bool → Parser τ β}
    (other : ¬ input.head? = some token) : (accept token >>= next) input = next false input :=
  bind_eq (accept_eq_false.mpr ⟨rfl, other⟩)

end Steps

/-! ## Reading a language -/

/-- What the parser takes is in the language, and it takes any list of at most
`size` tokens that is, before an input that may follow. -/
structure Reads (size : Nat) (parser : Parser τ α) (language : Language τ α)
    (follow : List τ → Prop) : Prop where
  sound : ∀ {input value rest}, parser input = some (value, rest) →
    ∃ tokens, input = tokens ++ rest ∧ language tokens value
  complete : ∀ {tokens value rest}, language tokens value → tokens.length ≤ size → follow rest →
    parser (tokens ++ rest) = some (value, rest)

/-- An input whose next token, if any, does not pass. -/
def NotBefore (passes : τ → Bool) (rest : List τ) : Prop := rest.head?.any passes = false

/-- Nothing is asked of the input that follows. -/
def Anywhere (_ : List τ) : Prop := True

section Repetitions

variable {size : Nat} {parser : Parser τ α} {language : Language τ α}

theorem many_sound {starts : τ → Bool} (item : Reads size parser language Anywhere) (fuel : Nat)
    {input rest : List τ} {values : List α} (read : many starts parser fuel input = some (values, rest)) :
    ∃ tokens, input = tokens ++ rest ∧ ListOf language tokens values := by
  induction fuel generalizing input values with
  | zero =>
      obtain ⟨rfl, rfl⟩ := pure_eq_some.mp read
      exact ⟨[], rfl, .nil⟩
  | succ fuel ih =>
      obtain ⟨more, _, looked, read⟩ := bind_eq_some.mp read
      obtain ⟨-, rfl⟩ := Prod.mk.inj (Option.some.inj looked)
      cases more with
      | true =>
          obtain ⟨value, _, first, read⟩ := bind_eq_some.mp read
          obtain ⟨others, _, later, read⟩ := bind_eq_some.mp read
          obtain ⟨rfl, rfl⟩ := pure_eq_some.mp read
          obtain ⟨tokens, rfl, isItem⟩ := item.sound first
          obtain ⟨others, rfl, isList⟩ := ih later
          exact ⟨tokens ++ others, by simp, isList.cons isItem⟩
      | false =>
          obtain ⟨rfl, rfl⟩ := pure_eq_some.mp read
          exact ⟨[], rfl, .nil⟩

theorem many_complete {starts : τ → Bool} (item : Reads size parser language Anywhere)
    (start : StartsWith language starts) (fuel : Nat)
    {tokens rest : List τ} {values : List α} (list : ListOf language tokens values)
    (within : tokens.length ≤ size) (enough : tokens.length ≤ fuel) (stop : NotBefore starts rest) :
    many starts parser fuel (tokens ++ rest) = some (values, rest) := by
  induction fuel generalizing tokens values with
  | zero =>
      obtain rfl := List.eq_nil_of_length_eq_zero (Nat.le_zero.mp enough)
      cases values with
      | nil => rfl
      | cons value values =>
          obtain ⟨first, more, empty, isItem, -⟩ := list.uncons
          obtain ⟨rfl, -⟩ := List.append_eq_nil_iff.mp empty.symm
          exact absurd rfl (start.ne_nil isItem)
  | succ fuel ih =>
      cases values with
      | nil =>
          obtain rfl := ListOf.nil_iff.mp list
          have looked : next starts ([] ++ rest) = some (false, rest) :=
            congrArg some (Prod.ext stop rfl)
          rw [many, bind_eq looked]
          rfl
      | cons value values =>
          obtain ⟨first, more, rfl, isItem, isList⟩ := list.uncons
          rw [List.length_append] at within enough
          have positive := List.length_pos_iff.mpr (start.ne_nil isItem)
          have looked : next starts (first ++ (more ++ rest)) = some (true, first ++ (more ++ rest)) :=
            congrArg some (Prod.ext (start.append isItem _) rfl)
          have taken : parser (first ++ (more ++ rest)) = some (value, more ++ rest) :=
            item.complete isItem (by omega) trivial
          have later := ih isList (by omega) (by omega)
          rw [many, List.append_assoc, bind_eq looked, if_pos rfl, bind_eq taken, bind_eq later]
          rfl

/-- With enough fuel, no item starts where the reading of items stops. -/
theorem many_stops {starts : τ → Bool} (item : Reads size parser language Anywhere)
    (start : StartsWith language starts) (fuel : Nat) {input rest : List τ} {values : List α}
    (read : many starts parser fuel input = some (values, rest)) (enough : input.length ≤ fuel) :
    NotBefore starts rest := by
  induction fuel generalizing input values with
  | zero =>
      obtain ⟨-, rfl⟩ := pure_eq_some.mp read
      obtain rfl := List.eq_nil_of_length_eq_zero (Nat.le_zero.mp enough)
      rfl
  | succ fuel ih =>
      obtain ⟨more, _, looked, read⟩ := bind_eq_some.mp read
      obtain ⟨passes, rfl⟩ := Prod.mk.inj (Option.some.inj looked)
      cases more with
      | true =>
          obtain ⟨value, _, first, read⟩ := bind_eq_some.mp read
          obtain ⟨others, _, later, read⟩ := bind_eq_some.mp read
          obtain ⟨-, rfl⟩ := pure_eq_some.mp read
          obtain ⟨tokens, rfl, isItem⟩ := item.sound first
          have positive := List.length_pos_iff.mpr (start.ne_nil isItem)
          rw [List.length_append] at enough
          exact ih later (by omega)
      | false =>
          obtain ⟨-, rfl⟩ := pure_eq_some.mp read
          exact passes

/-- Items that the next token announces. -/
theorem Reads.many {starts : τ → Bool} (item : Reads size parser language Anywhere)
    (start : StartsWith language starts) :
    Reads size (many starts parser size) (ListOf language) (NotBefore starts) where
  sound := many_sound item size
  complete := fun list within stop => many_complete item start size list within within stop

/-- Items that start otherwise may stand between. -/
theorem StartsWith.notBefore {starts other : τ → Bool} (start : StartsWith language starts)
    (apart : ∀ token, starts token = true → other token = false) {tokens rest : List τ}
    {values : List α} (list : ListOf language tokens values) (stop : NotBefore other rest) :
    NotBefore other (tokens ++ rest) := by
  cases values with
  | nil =>
      obtain rfl := ListOf.nil_iff.mp list
      exact stop
  | cons value values =>
      obtain ⟨first, more, rfl, isItem, -⟩ := list.uncons
      obtain ⟨token, first, rfl⟩ := List.exists_cons_of_ne_nil (start.ne_nil isItem)
      exact apart token (start _ _ isItem)

variable [DecidableEq τ] {separator : τ} {follow : List τ → Prop} {starts : τ → Bool}

theorem separated_sound (item : Reads size parser language follow) (fuel : Nat) {input rest : List τ}
    {values : List α} (read : separated separator parser fuel input = some (values, rest)) :
    ∃ tokens, input = tokens ++ rest ∧ SeparatedBy separator language tokens values := by
  induction fuel generalizing input values with
  | zero => cases read
  | succ fuel ih =>
      obtain ⟨value, _, first, behindFirst⟩ := bind_eq_some.mp read
      obtain ⟨more, _, looked, behindLook⟩ := bind_eq_some.mp behindFirst
      obtain ⟨tokens, rfl, isItem⟩ := item.sound first
      cases more with
      | true =>
          obtain rfl := accept_eq_true.mp looked
          obtain ⟨_, _, later, result⟩ := bind_eq_some.mp behindLook
          obtain ⟨rfl, rfl⟩ := pure_eq_some.mp result
          obtain ⟨others, rfl, isList⟩ := ih later
          exact ⟨tokens ++ separator :: others, by simp, .cons isItem isList⟩
      | false =>
          obtain ⟨rfl, -⟩ := accept_eq_false.mp looked
          obtain ⟨rfl, rfl⟩ := pure_eq_some.mp behindLook
          exact ⟨tokens, rfl, .one isItem⟩

theorem separated_complete (item : Reads size parser language follow)
    (start : StartsWith language starts) (between : ∀ rest, follow (separator :: rest)) (fuel : Nat)
    {tokens rest : List τ} {values : List α} (list : SeparatedBy separator language tokens values)
    (within : tokens.length ≤ size) (enough : tokens.length ≤ fuel) (after : follow rest)
    (stop : rest.head? ≠ some separator) :
    separated separator parser fuel (tokens ++ rest) = some (values, rest) := by
  induction fuel generalizing tokens values with
  | zero =>
      obtain rfl := List.eq_nil_of_length_eq_zero (Nat.le_zero.mp enough)
      cases values with
      | nil => exact absurd rfl list.ne_nil
      | cons value values =>
          rcases list.uncons with ⟨-, isItem⟩ | ⟨first, more, empty, -⟩
          · exact absurd rfl (start.ne_nil isItem)
          · simp at empty
  | succ fuel ih =>
      cases values with
      | nil => exact absurd rfl list.ne_nil
      | cons value values =>
          rcases list.uncons with ⟨rfl, isItem⟩ | ⟨first, more, rfl, isItem, isList⟩
          · have taken := item.complete isItem within after
            have looked := accept_eq_false.mpr ⟨rfl, stop⟩
            rw [separated, bind_eq taken, bind_eq looked]
            rfl
          · rw [List.length_append, List.length_cons] at within enough
            have taken := item.complete isItem (by omega) (between (more ++ rest))
            have looked : accept separator (separator :: (more ++ rest)) = some (true, more ++ rest) :=
              accept_eq_true.mpr rfl
            have later := ih isList (by omega) (by omega)
            rw [separated, List.append_assoc, List.cons_append, bind_eq taken, bind_eq looked,
              if_pos rfl, bind_eq later]
            rfl

/-- Items that may be followed by the separator. -/
theorem Reads.separated (item : Reads size parser language follow)
    (start : StartsWith language starts) (between : ∀ rest, follow (separator :: rest)) :
    Reads size (separated separator parser size) (SeparatedBy separator language)
      (fun rest => follow rest ∧ rest.head? ≠ some separator) where
  sound := separated_sound item size
  complete := fun list within after =>
    separated_complete item start between size list within within after.1 after.2

end Repetitions

end Parsing
