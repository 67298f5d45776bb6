import Snowlake.Parse.Literals

/-! # Characters outside the alphabet

The lexer ignores a character outside the alphabet, but for the quotes of an
integer and for the headings of `lexer.ll`, which are rules with characters of
the alphabet in their texts.
-/

namespace Snowlake

open MaximalMunch Pattern

namespace Lexer

/-- Letters, digits, the underscore and the signs of the tokens. -/
def isSolid (c : Char) : Bool :=
  isIdentifierStart c || isDigit c || ":;=!<.,[]\x7b\x7d()".toList.contains c

def inAlphabet (c : Char) : Bool := isSolid c || isGap c

/-- A character, or the blank that replaces it. -/
def clean (c : Char) : Char := if inAlphabet c then c else ' '

/-- What the rules for tokens match at a character outside the alphabet, at least. -/
def traps : List (List Char) := headings ++ [['\'', '\''], ['\'', '-', '\'']]

/-- A text without headings and without quotes that start an integer. -/
def Plain (input : List Char) : Prop := ∀ trap ∈ traps, ¬ trap <:+: input

instance (input : List Char) : Decidable (Plain input) :=
  inferInstanceAs (Decidable (∀ trap ∈ traps, ¬ trap <:+: input))

theorem Plain.of_suffix {input rest : List Char} (plain : Plain input) (suffix : rest <:+ input) :
    Plain rest :=
  fun trap member within => plain trap member (within.trans suffix.isInfix)

theorem not_solid_of_gap {c : Char} (gap : isGap c = true) : isSolid c = false := by
  obtain rfl | rfl | rfl := isGap_iff.mp gap <;> rfl

theorem clean_of_solid {c : Char} (solid : isSolid c = true) : clean c = c := by
  rw [clean, inAlphabet, solid]
  rfl

theorem clean_solid_iff (c : Char) : isSolid (clean c) = isSolid c := by
  unfold clean inAlphabet
  cases solid : isSolid c with
  | true => simp [solid]
  | false =>
      cases isGap c with
      | true => exact solid
      | false => rfl

theorem inAlphabet_clean (c : Char) : inAlphabet (clean c) = true := by
  unfold clean
  split
  · assumption
  · rfl

/-! ## The rules -/

theorem isSolid_of_fixed {token : Token} (member : token ∈ fixedTokens) :
    ∀ c ∈ token.text, isSolid c = true := by
  have all : ∀ token ∈ fixedTokens, token.text.all isSolid = true := by decide
  exact List.all_eq_true.mp (all token member)

theorem isSolid_of_identifier {text : List Char} (matched : Matches identifierPattern text) :
    ∀ c ∈ text, isSolid c = true := by
  intro c member
  have used := matched.uses c member
  have word : isIdentifierStart c = true ∨ isDigit c = true := by
    simpa [identifierPattern, uses] using used
  rcases word with start | digit
  · simp [isSolid, start]
  · simp [isSolid, digit]

theorem isSolid_of_numeral {text : List Char} (numeral : IsNumeral text) :
    ∀ c ∈ text, isSolid c = true := by
  intro c member
  simp [isSolid, numeral.2 c member]

/-- A token that starts with a character of the alphabet consists of such. -/
theorem solid_of_tokenRule {rule : Pattern Char × Action} (member : rule ∈ tokenRules) {first : Char}
    {text : List Char} (matched : Matches rule.1 (first :: text)) (solid : isSolid first = true) :
    ∀ c ∈ first :: text, isSolid c = true := by
  cases ruleShape member with
  | heading isHeading =>
      rw [← matches_literal_iff.mp matched] at isHeading
      obtain rfl := Option.some.inj (heading_starts isHeading)
      cases solid
  | token fixed same =>
      rw [matches_literal_iff.mp matched, same]
      exact isSolid_of_fixed fixed
  | identifier => exact isSolid_of_identifier matched
  | integer =>
      rcases numeral_or_quotes matched (List.cons_ne_nil _ _) with numeral | ⟨_, same⟩ | ⟨_, same⟩
      · exact isSolid_of_numeral numeral
      · obtain rfl := (List.cons.inj same).1
        cases solid
      · obtain rfl := (List.cons.inj same).1
        cases solid

/-- A trap is what starts a token outside the alphabet. -/
theorem trap_of_tokenRule {rule : Pattern Char × Action} (member : rule ∈ tokenRules) {first : Char}
    {text : List Char} (matched : Matches rule.1 (first :: text)) (outside : isSolid first = false) :
    ∃ trap ∈ traps, trap <+: first :: text := by
  have solid_not (allSolid : ∀ c ∈ first :: text, isSolid c = true) : False := by
    rw [allSolid first (by simp)] at outside
    cases outside
  cases ruleShape member with
  | heading isHeading =>
      rw [← matches_literal_iff.mp matched] at isHeading
      exact ⟨_, List.mem_append_left _ isHeading, List.prefix_rfl⟩
  | token fixed same =>
      rw [matches_literal_iff.mp matched, same] at solid_not
      exact (solid_not (isSolid_of_fixed fixed)).elim
  | identifier => exact (solid_not (isSolid_of_identifier matched)).elim
  | integer =>
      rcases numeral_or_quotes matched (List.cons_ne_nil _ _) with numeral | quotes | minus
      · exact (solid_not (isSolid_of_numeral numeral)).elim
      · exact ⟨_, by simp [traps], quotes⟩
      · exact ⟨_, by simp [traps], minus⟩

theorem tokenRule_of_trap {trap : List Char} (member : trap ∈ traps) :
    ∃ rule ∈ tokenRules, Matches rule.1 trap := by
  have all : ∀ trap ∈ traps, ∃ rule ∈ tokenRules, rule.1.accepts trap = true := by decide
  obtain ⟨rule, inRules, accepted⟩ := all trap member
  exact ⟨rule, inRules, (accepts_iff ..).mp accepted⟩

theorem trap_starts {trap : List Char} (member : trap ∈ traps) :
    ∃ first later, trap = first :: later ∧ inAlphabet first = false := by
  have all : ∀ trap ∈ traps, trap.head?.any fun c => !inAlphabet c := by decide
  have outside := all trap member
  cases trap with
  | nil => cases outside
  | cons first later => exact ⟨first, later, rfl, by simpa using outside⟩

/-- A match that starts with a character of a token does not leave the alphabet,
nor does it reach a blank. -/
theorem solid_of_rule {rule : Pattern Char × Action} (member : rule ∈ rules) {first : Char}
    {text : List Char} (matched : Matches rule.1 (first :: text)) (solid : isSolid first = true) :
    ∀ c ∈ first :: text, isSolid c = true := by
  have used := matched.uses first (by simp)
  have notGap : isGap first = false := by
    by_contra gap
    rw [Bool.not_eq_false] at gap
    rw [not_solid_of_gap gap] at solid
    cases solid
  simp only [isGap, Bool.or_eq_false_iff] at notGap
  rcases mem_rules_iff.mp member with ofToken | rfl | rfl | rfl
  · exact solid_of_tokenRule ofToken matched solid
  · simp [plus, uses, notGap.1] at used
  · simp [plus, uses] at used
    simp [used] at notGap
  · obtain ⟨item, -, same⟩ := matches_one_iff.mp matched
    obtain ⟨rfl, rfl⟩ := List.cons.inj same
    exact List.forall_mem_singleton.mpr solid

theorem munch_total (first : Char) (rest : List Char) :
    ∃ length action, munch rules (first :: rest) = some (length + 1, action) := by
  have someRule : ∃ rule ∈ rules, Matches rule.1 [first] := by
    by_cases newline : first = '\n'
    · exact exists_rule_of_gap (by simp [isGap, newline])
    · exact ⟨_, mem_rules_iff.mpr (.inr (.inr (.inr rfl))), .one (by simpa using newline)⟩
  obtain ⟨rule, member, matched⟩ := someRule
  obtain ⟨length, found, positive⟩ := le_longest matched rest
  obtain ⟨⟨taken, action⟩, munched, longer⟩ := le_munch member found
  obtain ⟨taken, rfl⟩ := Nat.exists_eq_succ_of_ne_zero (Nat.ne_of_gt (Nat.lt_of_lt_of_le positive longer))
  exact ⟨taken, action, munched⟩

/-! ## A plain text -/

theorem lexemes_eq_cons {first : Char} {rest : List Char} {length : Nat} {action : Action}
    (munched : munch rules (first :: rest) = some (length + 1, action)) :
    lexemes (first :: rest) =
      (if action = .ignore then [] else [(action, first :: rest.take length)]) ++
        lexemes (rest.drop length) := by
  rw [lexemes, scan, munched]
  cases action <;> rfl

theorem lexemes_gap_cons {first : Char} (gap : isGap first = true) (rest : List Char) :
    lexemes (first :: rest) = lexemes rest := by
  have gaps : ∀ c ∈ rest.takeWhile isGap, isGap c = true := fun c member => List.mem_takeWhile_imp member
  have stops : ∀ c ∈ (rest.dropWhile isGap).head?, isGap c = false := by
    intro c head
    have notGap := List.head?_dropWhile_not isGap rest
    rw [head] at notGap
    simpa using notGap
  have all : ∀ c ∈ first :: rest.takeWhile isGap, isGap c = true := List.forall_mem_cons.mpr ⟨gap, gaps⟩
  have skipped := lexemes_gap all stops
  rw [List.cons_append, List.takeWhile_append_dropWhile] at skipped
  rw [skipped, ← lexemes_gap gaps stops, List.takeWhile_append_dropWhile]

/-- A character outside the alphabet is skipped by itself. -/
theorem lexemes_outside_cons {first : Char} {rest : List Char} (plain : Plain (first :: rest))
    (outside : inAlphabet first = false) : lexemes (first :: rest) = lexemes rest := by
  rw [inAlphabet, Bool.or_eq_false_iff] at outside
  have notGap := outside.2
  simp only [isGap, Bool.or_eq_false_iff] at notGap
  obtain ⟨length, action, munched⟩ := munch_total first rest
  rw [lexemes_eq_cons munched]
  obtain ⟨pattern, member, found⟩ := mem_of_munch munched
  have matched := (matches_of_longest found).2
  rw [List.take_succ_cons] at matched
  have used := matched.uses first (by simp)
  rcases mem_rules_iff.mp member with ofToken | same | same | same
  · obtain ⟨trap, isTrap, starts⟩ := trap_of_tokenRule ofToken matched outside.1
    have within := starts.trans (List.take_prefix (length + 1) (first :: rest))
    exact absurd within.isInfix (plain trap isTrap)
  · obtain ⟨rfl, rfl⟩ := Prod.mk.inj same
    simp [plus, uses, notGap.1] at used
  · obtain ⟨rfl, rfl⟩ := Prod.mk.inj same
    simp [plus, uses] at used
    simp [used] at notGap
  · obtain ⟨rfl, rfl⟩ := Prod.mk.inj same
    have single := longest_one_le found
    obtain rfl : length = 0 := by omega
    rfl

/-- What is taken at a character of a token does not depend on what is outside the
alphabet. -/
theorem munch_clean {first : Char} (solid : isSolid first = true) (rest : List Char) :
    munch rules ((first :: rest).map clean) = munch rules (first :: rest) ∧
      ∀ length action, munch rules (first :: rest) = some (length, action) →
        ∀ c ∈ (first :: rest).take length, isSolid c = true := by
  have solids : ∀ c ∈ first :: rest.takeWhile isSolid, isSolid c = true :=
    List.forall_mem_cons.mpr ⟨solid, fun c member => List.mem_takeWhile_imp member⟩
  have stops : ∀ c ∈ (rest.dropWhile isSolid).head?, isSolid c = false := by
    intro c head
    have notSolid := List.head?_dropWhile_not isSolid rest
    rw [head] at notSolid
    simpa using notSolid
  -- no match goes beyond the characters of tokens
  have within (other : List Char) (otherStops : ∀ c ∈ other.head?, isSolid c = false)
      {rule : Pattern Char × Action} (member : rule ∈ rules) {length : Nat}
      (found : longest rule.1 ((first :: rest.takeWhile isSolid) ++ other) = some length) :
      length ≤ (first :: rest.takeWhile isSolid).length := by
    refine longest_le_of_stop found fun c head reached => ?_
    have matched := (matches_of_longest found).2
    cases length with
    | zero => cases reached
    | succ length =>
        rw [List.cons_append, List.take_succ_cons] at matched reached
        have solidThere := solid_of_rule member matched solid c reached
        rw [otherStops c head] at solidThere
        cases solidThere
  have split : first :: rest = (first :: rest.takeWhile isSolid) ++ rest.dropWhile isSolid := by
    rw [List.cons_append, List.takeWhile_append_dropWhile]
  have unchanged : (first :: rest.takeWhile isSolid).map clean = first :: rest.takeWhile isSolid := by
    rw [List.map_congr_left fun c member => clean_of_solid (solids c member), List.map_id']
  have cleanStops : ∀ c ∈ ((rest.dropWhile isSolid).map clean).head?, isSolid c = false := by
    intro c head
    rw [List.head?_map] at head
    obtain ⟨d, isHead, rfl⟩ := Option.map_eq_some_iff.mp head
    rw [clean_solid_iff]
    exact stops d isHead
  constructor
  · rw [split, List.map_append, unchanged]
    refine munch_congr fun rule member => ?_
    rw [longest_append fun length found => within _ cleanStops member found,
      longest_append fun length found => within _ stops member found]
  · intro length action munched
    rw [split] at munched ⊢
    obtain ⟨pattern, member, found⟩ := mem_of_munch munched
    rw [List.take_append_of_le_length (within _ stops member found)]
    exact fun c reached => solids c (List.mem_of_mem_take reached)

/-- A plain text has the tokens of its clean copy. -/
theorem lexemes_clean {input : List Char} (plain : Plain input) :
    lexemes (input.map clean) = lexemes input := by
  induction size : input.length using Nat.strongRecOn generalizing input with
  | ind bound ih =>
      cases input with
      | nil => rfl
      | cons first rest =>
          have plainRest : Plain rest := plain.of_suffix (List.suffix_cons first rest)
          have shorter : rest.length < bound := by
            rw [← size, List.length_cons]
            omega
          by_cases solid : isSolid first = true
          · obtain ⟨same, solids⟩ := munch_clean solid rest
            obtain ⟨length, action, munched⟩ := munch_total first rest
            have munchedClean := same.trans munched
            rw [List.map_cons] at munchedClean ⊢
            have unchanged : (rest.take length).map clean = rest.take length := by
              have solidTake := solids _ action munched
              rw [List.take_succ_cons, List.forall_mem_cons] at solidTake
              rw [List.map_congr_left fun c member => clean_of_solid (solidTake.2 c member),
                List.map_id']
            have plainLater : Plain (rest.drop length) := plainRest.of_suffix (List.drop_suffix _ _)
            have later := ih _ (by
              rw [List.length_drop]
              omega) plainLater rfl
            rw [lexemes_eq_cons munchedClean, lexemes_eq_cons munched, clean_of_solid solid,
              ← List.map_take, ← List.map_drop, unchanged, later]
          · rw [Bool.not_eq_true] at solid
            have gapClean : isGap (clean first) = true := by
              have inside := inAlphabet_clean first
              rw [inAlphabet, clean_solid_iff, solid, Bool.false_or] at inside
              exact inside
            rw [List.map_cons, lexemes_gap_cons gapClean, ih _ shorter plainRest rfl]
            by_cases gap : isGap first = true
            · exact (lexemes_gap_cons gap rest).symm
            · refine (lexemes_outside_cons plain ?_).symm
              rw [inAlphabet, solid, Bool.false_or]
              exact Bool.not_eq_true _ ▸ gap

/-! ## A trap -/

/-- What is ignored is a heading, blanks, newlines, or one character that starts no
match of a token. -/
theorem ignored_cases {text rest : List Char} (nonempty : text ≠ [])
    (munched : munch rules (text ++ rest) = some (text.length, .ignore)) :
    text ∈ headings ∨ (∀ c ∈ text, isGap c = true) ∨
      (text.length = 1 ∧ ∀ rule ∈ tokenRules, ∀ length,
        longest rule.1 (text ++ rest) = some length → length = 0) := by
  rcases munch_append munched with ofToken | ⟨ofGap, less⟩
  · left
    obtain ⟨pattern, member, found⟩ := mem_of_munch ofToken
    have matched := (matches_of_longest found).2
    rw [List.take_left] at matched
    generalize made : (pattern, Action.ignore) = rule at member
    cases ruleShape member with
    | heading isHeading =>
        obtain ⟨rfl, -⟩ := Prod.mk.inj made
        exact matches_literal_iff.mp matched ▸ isHeading
    | token | identifier | integer => cases made
  · obtain ⟨pattern, member, found⟩ := mem_of_munch ofGap
    have matched := (matches_of_longest found).2
    rw [List.take_left] at matched
    simp only [List.mem_cons, Prod.mk.injEq, and_true, List.not_mem_nil, or_false] at member
    rcases member with rfl | rfl | rfl
    · refine .inr (.inl fun c inText => ?_)
      have blank : isBlank c = true := by simpa [plus, uses] using matched.uses c inText
      simp [isGap, blank]
    · refine .inr (.inl fun c inText => ?_)
      have newline : c = '\n' := by simpa [plus, uses] using matched.uses c inText
      simp [isGap, newline]
    · have single := longest_one_le found
      have some : 0 < text.length := List.length_pos_iff.mpr nonempty
      refine .inr (.inr ⟨by omega, fun rule inTokens length foundToken => ?_⟩)
      obtain ⟨best, taken, longer⟩ := le_munch inTokens foundToken
      have shorter := less best taken
      omega

theorem isWord_heading {text : List Char} (member : text ∈ headings) : ∃ c ∈ text, isWord c = true := by
  have all : ∀ text ∈ headings, text.any isWord = true := by decide
  exact List.any_eq_true.mp (all text member)

theorem isSolid_of_isWord {c : Char} (word : isWord c = true) : isSolid c = true := by
  rw [isWord] at word
  rw [isSolid, word]
  rfl

theorem isWord_clean (c : Char) : isWord (clean c) = isWord c := by
  by_cases word : isWord c = true
  · rw [clean_of_solid (isSolid_of_isWord word)]
  · unfold clean
    split
    · rfl
    · exact (Bool.not_eq_true _ ▸ word).symm

/-- A letter or digit by itself is a token. -/
theorem word_matches {c : Char} (word : isWord c = true) : ∃ rule ∈ tokenRules, Matches rule.1 [c] := by
  rcases Bool.or_eq_true _ _ ▸ word with start | digit
  · refine ⟨(identifierPattern, .makeIdentifier), by simp [tokenRules], ?_⟩
    exact .seq (.one start) .done
  · refine ⟨(integerPattern, .makeIntegerLiteral), by simp [tokenRules], ?_⟩
    exact @Matches.seq _ _ _ [] [c] (.altLeft .empty) (.altRight (matches_star_one (by simpa using digit)))

/-- A match of the clean text stays in the alphabet. -/
theorem inAlphabet_of_mem_scan {input text : List Char} {action : Action}
    (member : (action, text) ∈ scan rules (input.map clean)) : ∀ c ∈ text, inAlphabet c = true := by
  intro c inText
  obtain ⟨-, rest, suffix, -⟩ := munch_of_mem_scan member
  obtain ⟨d, -, rfl⟩ := List.mem_map.mp (suffix.mem (List.mem_append_left rest inText))
  exact inAlphabet_clean d

/-- In a clean text nothing of an identifier or a number is ignored. -/
theorem ignored_clean {input text : List Char}
    (member : (Action.ignore, text) ∈ scan rules (input.map clean)) : ∀ c ∈ text, isWord c = false := by
  intro c inText
  by_contra word
  rw [Bool.not_eq_false] at word
  obtain ⟨nonempty, rest, -, munched⟩ := munch_of_mem_scan member
  rcases ignored_cases nonempty munched with isHeading | gaps | ⟨single, noToken⟩
  · have isHash := List.mem_of_mem_head? (heading_starts isHeading)
    exact absurd (inAlphabet_of_mem_scan member '#' isHash) (by decide)
  · have notSolid := not_solid_of_gap (gaps c inText)
    rw [isSolid_of_isWord word] at notSolid
    cases notSolid
  · obtain ⟨d, rfl⟩ := List.length_eq_one_iff.mp single
    obtain rfl := List.mem_singleton.mp inText
    obtain ⟨rule, inTokens, matched⟩ := word_matches word
    obtain ⟨length, found, some⟩ := le_longest matched rest
    rw [noToken rule inTokens length found] at some
    cases some

/-- What the matches that are kept and those that are dropped have of some kind. -/
theorem countP_filter_texts (taken : List (Action × List Char)) :
    ((taken.filter fun taken => taken.1 ≠ .ignore).map (·.2)).flatten.countP isWord +
      ((taken.filter fun taken => taken.1 = .ignore).map (·.2)).flatten.countP isWord =
        (taken.map (·.2)).flatten.countP isWord := by
  induction taken with
  | nil => rfl
  | cons first rest ih =>
      obtain ⟨action, text⟩ := first
      cases action <;> simp [← ih] <;> omega

def ignored (input : List Char) : List (Action × List Char) :=
  (scan rules input).filter fun taken => taken.1 = .ignore

theorem countP_lexemes (input : List Char) :
    ((lexemes input).map (·.2)).flatten.countP isWord +
      ((ignored input).map (·.2)).flatten.countP isWord = input.countP isWord := by
  rw [lexemes, ignored, countP_filter_texts, flatten_scan munch_total]

theorem countP_clean (input : List Char) : (input.map clean).countP isWord = input.countP isWord := by
  rw [List.countP_map]
  exact List.countP_congr fun c _ => by rw [Function.comp, isWord_clean]

theorem ignored_clean_count (input : List Char) :
    ((ignored (input.map clean)).map (·.2)).flatten.countP isWord = 0 := by
  refine List.countP_eq_zero.mpr fun c member => ?_
  obtain ⟨text, isText, inText⟩ := List.mem_flatten.mp member
  obtain ⟨⟨action, text⟩, isIgnored, rfl⟩ := List.mem_map.mp isText
  obtain ⟨taken, isIgnore⟩ := List.mem_filter.mp isIgnored
  obtain rfl : action = .ignore := by simpa using isIgnore
  exact Bool.not_eq_true _ ▸ ignored_clean taken c inText

/-- A text with a trap has not the tokens of its clean copy: the trap keeps its
first character, or a heading takes letters with it. -/
theorem plain_of_lexemes_clean {input : List Char} (same : lexemes (input.map clean) = lexemes input) :
    Plain input := by
  intro trap isTrap ⟨before, after, split⟩
  obtain ⟨first, later, rfl, outside⟩ := trap_starts isTrap
  obtain ⟨action, left, right, rest, member, munched, follows⟩ :=
    scan_at munch_total before (later ++ after) first
  rw [← List.cons_append, ← List.append_assoc, split] at member
  by_cases ignores : action = .ignore
  · subst ignores
    rcases ignored_cases (by simp) munched with isHeading | gaps | ⟨single, noToken⟩
    · obtain ⟨c, inText, word⟩ := isWord_heading isHeading
      have lost : 0 < ((ignored input).map (·.2)).flatten.countP isWord := by
        refine List.countP_pos_iff.mpr ⟨c, ?_, word⟩
        exact List.mem_flatten.mpr ⟨_, List.mem_map_of_mem (List.mem_filter.mpr ⟨member, rfl⟩), inText⟩
      have kept := ignored_clean_count input
      have here := countP_lexemes input
      have there := countP_lexemes (input.map clean)
      rw [same, countP_clean, kept] at there
      omega
    · have gap := gaps first (by simp)
      rw [inAlphabet, gap, Bool.or_true] at outside
      cases outside
    · obtain ⟨rfl, rfl⟩ : left = [] ∧ right = [] := by
        cases left <;> cases right <;> simp at single ⊢
      obtain ⟨rule, inTokens, matched⟩ := tokenRule_of_trap isTrap
      obtain ⟨length, found, some⟩ := le_longest matched after
      rw [List.nil_append] at follows
      rw [List.nil_append, List.singleton_append, ← follows, ← List.cons_append] at noToken
      rw [noToken rule inTokens length found] at some
      cases some
  · have isLexeme : (action, left ++ first :: right) ∈ lexemes input :=
      List.mem_filter.mpr ⟨member, by simpa using ignores⟩
    rw [← same] at isLexeme
    have inside := inAlphabet_of_mem_scan (List.mem_filter.mp isLexeme).1 first (by simp)
    rw [outside] at inside
    cases inside

theorem lexemes_clean_iff (input : List Char) :
    lexemes (input.map clean) = lexemes input ↔ Plain input :=
  ⟨plain_of_lexemes_clean, lexemes_clean⟩

/-- `#dot` has no tokens, its clean copy has the identifier `dot`.  Two quotes are
an integer, two blanks are nothing. -/
theorem heading_and_quotes_not_clean :
    lexemes ("#dot".toList.map clean) ≠ lexemes "#dot".toList ∧
      lexemes (['\'', '\''].map clean) ≠ lexemes ['\'', '\''] := by
  have heading : isScan rules [(.ignore, "#dot".toList)] = true := by decide
  have word : isScan rules [(.ignore, [' ']), (.makeIdentifier, "dot".toList)] = true := by decide
  have quotes : isScan rules [(.makeIntegerLiteral, ['\'', '\''])] = true := by decide
  have blanks : isScan rules [(.ignore, [' ', ' '])] = true := by decide
  constructor
  · intro same
    have headingScan : scan rules "#dot".toList = _ := scan_of_isScan heading
    have wordScan : scan rules ("#dot".toList.map clean) = _ := scan_of_isScan word
    rw [lexemes, lexemes, headingScan, wordScan] at same
    exact absurd same (by decide)
  · intro same
    have quotesScan : scan rules ['\'', '\''] = _ := scan_of_isScan quotes
    have blanksScan : scan rules (['\'', '\''].map clean) = _ := scan_of_isScan blanks
    rw [lexemes, lexemes, quotesScan, blanksScan] at same
    exact absurd same (by decide)

end Lexer

end Snowlake
