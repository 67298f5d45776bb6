import Mathlib.Data.Sigma.Basic
import Mathlib.Order.Lattice

/-! # Comparisons

An equality and a strict order as functions with answers, and what makes them fit
each other.  Tagged values are compared by the ranks of their tags first, and
under one tag by the comparisons of that tag.
-/

namespace Comparison

variable {α : Type}

/-- Among the members `equal` is an equivalence and `less` a strict weak order
that leaves exactly equal members incomparable. -/
structure Compares (member : α → Prop) (equal less : α → α → Bool) : Prop where
  refl : ∀ x, member x → equal x x = true
  symm : ∀ x y, member x → member y → equal x y = true → equal y x = true
  trans : ∀ x y z, member x → member y → member z → equal x y = true → equal y z = true → equal x z = true
  irrefl : ∀ x, member x → less x x = false
  lessTrans : ∀ x y z, member x → member y → member z →
    less x y = true → less y z = true → less x z = true
  incomparable : ∀ x y, member x → member y →
    (equal x y = true ↔ less x y = false ∧ less y x = false)

/-- A linear order as it is. -/
theorem compares_of_linearOrder (α : Type) [LinearOrder α] :
    Compares (fun _ : α => True) (fun x y => decide (x = y)) fun x y => decide (x < y) where
  refl := by simp
  symm := by simp
  trans := by
    intro x y z _ _ _ isEqual isEqual'
    simp_all
  irrefl := by simp
  lessTrans := by
    intro x y z _ _ _ isLess isLess'
    rw [decide_eq_true_eq] at isLess isLess' ⊢
    exact lt_trans isLess isLess'
  incomparable := by
    intro x y _ _
    simp only [decide_eq_true_eq, decide_eq_false_iff_not, not_lt]
    constructor
    · intro same
      exact ⟨le_of_eq same.symm, le_of_eq same⟩
    · intro ⟨above, below⟩
      exact le_antisymm below above

/-- What a comparison says of two values if both are there. -/
def answer {β : Type} (compare : β → β → Bool) : Option β → Option β → Bool
  | some x, some y => compare x y
  | _, _ => false

/-- The laws carry over along a view that all members have. -/
theorem Compares.comap {β : Type} {member : β → Prop} {equal less : β → β → Bool}
    (compares : Compares member equal less) {member' : α → Prop} (view : α → Option β)
    (within : ∀ x, member' x → ∃ seen, view x = some seen ∧ member seen) :
    Compares member' (fun x y => answer equal (view x) (view y))
      (fun x y => answer less (view x) (view y)) where
  refl := by
    intro x inside
    obtain ⟨a, seen, isMember⟩ := within x inside
    rw [seen]
    exact compares.refl a isMember
  symm := by
    intro x y inside inside'
    obtain ⟨a, seen, isMember⟩ := within x inside
    obtain ⟨b, seen', isMember'⟩ := within y inside'
    rw [seen, seen']
    exact compares.symm a b isMember isMember'
  trans := by
    intro x y z inside inside' inside''
    obtain ⟨a, seen, isMember⟩ := within x inside
    obtain ⟨b, seen', isMember'⟩ := within y inside'
    obtain ⟨c, seen'', isMember''⟩ := within z inside''
    rw [seen, seen', seen'']
    exact compares.trans a b c isMember isMember' isMember''
  irrefl := by
    intro x inside
    obtain ⟨a, seen, isMember⟩ := within x inside
    rw [seen]
    exact compares.irrefl a isMember
  lessTrans := by
    intro x y z inside inside' inside''
    obtain ⟨a, seen, isMember⟩ := within x inside
    obtain ⟨b, seen', isMember'⟩ := within y inside'
    obtain ⟨c, seen'', isMember''⟩ := within z inside''
    rw [seen, seen', seen'']
    exact compares.lessTrans a b c isMember isMember' isMember''
  incomparable := by
    intro x y inside inside'
    obtain ⟨a, seen, isMember⟩ := within x inside
    obtain ⟨b, seen', isMember'⟩ := within y inside'
    rw [seen, seen']
    exact compares.incomparable a b isMember isMember'

section Lexicographic

variable {ι ρ : Type} {V : ι → Type} [DecidableEq ι] [LinearOrder ρ]

def lexEqual (equal : (tag : ι) → V tag → V tag → Bool) (x y : (tag : ι) × V tag) : Bool :=
  if same : x.1 = y.1 then equal y.1 (same ▸ x.2) y.2 else false

def lexLess (rank : ι → ρ) (less : (tag : ι) → V tag → V tag → Bool) (x y : (tag : ι) × V tag) : Bool :=
  if same : x.1 = y.1 then less y.1 (same ▸ x.2) y.2 else decide (rank x.1 < rank y.1)

variable {equal less : (tag : ι) → V tag → V tag → Bool} {rank : ι → ρ} {tag other : ι}

theorem lexEqual_same (value value' : V tag) :
    lexEqual equal ⟨tag, value⟩ ⟨tag, value'⟩ = equal tag value value' := by
  simp [lexEqual]

theorem lexEqual_ne (different : tag ≠ other) (value : V tag) (value' : V other) :
    lexEqual equal ⟨tag, value⟩ ⟨other, value'⟩ = false := by
  simp [lexEqual, different]

theorem lexLess_same (value value' : V tag) :
    lexLess rank less ⟨tag, value⟩ ⟨tag, value'⟩ = less tag value value' := by
  simp [lexLess]

theorem lexLess_ne (different : tag ≠ other) (value : V tag) (value' : V other) :
    lexLess rank less ⟨tag, value⟩ ⟨other, value'⟩ = decide (rank tag < rank other) := by
  simp [lexLess, different]

theorem tag_eq_of_lexEqual {value : V tag} {value' : V other}
    (isEqual : lexEqual equal ⟨tag, value⟩ ⟨other, value'⟩ = true) : tag = other := by
  by_contra different
  rw [lexEqual_ne different] at isEqual
  cases isEqual

/-- Between values of one tag the order is that of the tag, else the tags decide. -/
theorem lexLess_trans {third : ι}
    (trans : ∀ value value' value'' : V tag, less tag value value' = true → less tag value' value'' = true →
      less tag value value'' = true) {value : V tag} {value' : V other} {value'' : V third}
    (isLess : lexLess rank less ⟨tag, value⟩ ⟨other, value'⟩ = true)
    (isLess' : lexLess rank less ⟨other, value'⟩ ⟨third, value''⟩ = true) :
    lexLess rank less ⟨tag, value⟩ ⟨third, value''⟩ = true := by
  by_cases same : tag = other
  · subst same
    by_cases same' : tag = third
    · subst same'
      rw [lexLess_same] at isLess isLess' ⊢
      exact trans value value' value'' isLess isLess'
    · rw [lexLess_ne same'] at isLess' ⊢
      exact isLess'
  · rw [lexLess_ne same, decide_eq_true_eq] at isLess
    by_cases same' : other = third
    · subst same'
      rw [lexLess_ne same]
      exact decide_eq_true isLess
    · rw [lexLess_ne same', decide_eq_true_eq] at isLess'
      have ranks := lt_trans isLess isLess'
      have different : tag ≠ third := fun same'' => absurd (same'' ▸ ranks) (lt_irrefl _)
      rw [lexLess_ne different]
      exact decide_eq_true ranks

/-- Comparing by tags first keeps the laws, if different tags have different ranks. -/
theorem Compares.lex {tags : List ι} (each : ∀ tag ∈ tags, Compares (fun _ => True) (equal tag) (less tag))
    (injective : ∀ tag ∈ tags, ∀ other ∈ tags, rank tag = rank other → tag = other) :
    Compares (fun x : (tag : ι) × V tag => x.1 ∈ tags) (lexEqual equal) (lexLess rank less) where
  refl := by
    intro ⟨tag, value⟩ inside
    rw [lexEqual_same]
    exact (each tag inside).refl value trivial
  symm := by
    intro ⟨tag, value⟩ ⟨other, value'⟩ inside inside' isEqual
    obtain rfl := tag_eq_of_lexEqual isEqual
    rw [lexEqual_same] at isEqual ⊢
    exact (each tag inside).symm value value' trivial trivial isEqual
  trans := by
    intro ⟨tag, value⟩ ⟨other, value'⟩ ⟨third, value''⟩ inside _ _ isEqual isEqual'
    obtain rfl := tag_eq_of_lexEqual isEqual
    obtain rfl := tag_eq_of_lexEqual isEqual'
    rw [lexEqual_same] at isEqual isEqual' ⊢
    exact (each tag inside).trans value value' value'' trivial trivial trivial isEqual isEqual'
  irrefl := by
    intro ⟨tag, value⟩ inside
    rw [lexLess_same]
    exact (each tag inside).irrefl value trivial
  lessTrans := by
    intro ⟨tag, value⟩ ⟨other, value'⟩ ⟨third, value''⟩ inside _ _ isLess isLess'
    refine lexLess_trans ?_ isLess isLess'
    intro first second last
    exact (each tag inside).lessTrans first second last trivial trivial trivial
  incomparable := by
    intro ⟨tag, value⟩ ⟨other, value'⟩ inside inside'
    by_cases same : tag = other
    · subst same
      rw [lexEqual_same, lexLess_same, lexLess_same]
      exact (each tag inside).incomparable value value' trivial trivial
    · rw [lexEqual_ne same, lexLess_ne same, lexLess_ne (Ne.symm same), decide_eq_false_iff_not,
        decide_eq_false_iff_not, not_lt, not_lt]
      refine iff_of_false Bool.false_ne_true ?_
      intro ⟨above, below⟩
      exact same (injective tag inside other inside' (le_antisymm below above))

end Lexicographic

end Comparison
