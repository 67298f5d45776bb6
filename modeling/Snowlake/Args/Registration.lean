import Snowlake.Args.Specification

/-! # What registration leaves for the checks on shorthands

Registering overwrites two tables independently of each other.  A name that is
registered again leaves its old shorthand behind, and a shorthand that is
registered again takes it from another option; the two can offset each other in
the sizes of the tables, but not in the check of each shorthand.
-/

namespace Snowlake.ArgumentParser

variable {platform : Platform}

/-- The options and the shorthands are inverse bijections. -/
structure Inverse (parser : ArgumentParser platform) : Prop where
  /-- The shorthand of an option leads back to the option's name. -/
  opts : ∀ name option, parser.opts.lookup name = some option →
    parser.shorthandMap.lookup option.shorthand = some name
  /-- A shorthand belongs to the option it names. -/
  shorthandMap : ∀ c name, parser.shorthandMap.lookup c = some name →
    ∃ option, parser.opts.lookup name = some option ∧ option.shorthand = c

/-- Equal sizes leave no option without a shorthand of its own. -/
theorem consistent_iff_inverse (parser : ArgumentParser platform) :
    parser.Consistent ↔ parser.Inverse := by
  refine (Table.inverse_iff parser.shorthandMap parser.opts (·.shorthand)).trans ?_
  constructor
  · intro ⟨opts, shorthandMap⟩
    exact ⟨opts, shorthandMap⟩
  · intro inverse
    exact ⟨inverse.opts, inverse.shorthandMap⟩

/-- After any registrations the two checks of `__checkParameters` on shorthands
pass if options and shorthands are inverse bijections, and only then; they pass
if no name and no shorthand was registered twice. -/
theorem registered_shorthandChecks {parameters : List (Parameter platform)} {minimum : Nat}
    {parser : ArgumentParser platform} (registered : Registered parameters minimum parser) :
    (parser.checkShorthands = true ↔ parser.Inverse) ∧
    ((parameters.map (·.name)).Nodup → (parameters.map (·.shorthand)).Nodup →
      parser.checkShorthands = true) := by
  constructor
  · exact (checkShorthands_iff parser).trans (consistent_iff_inverse parser)
  · intro names shorthands
    exact (checkShorthands_iff parser).mpr (registered.consistent_of_nodup names shorthands)

/-- A stale shorthand and an option without one, in tables of equal size. -/
def offsetParameters : List (Parameter integerPlatform) := [
  ⟨"first".toList, 'f', false, .bool false, none⟩,
  ⟨"second".toList, 's', false, .bool false, none⟩,
  ⟨"first".toList, 's', false, .bool false, none⟩]

/-- Equal sizes are not enough: here they hide that the options are no inverse of
the shorthands. -/
theorem offsetParameters_shorthandChecks :
    ((register offsetParameters 0).shorthandMap.entries.length =
        (register offsetParameters 0).opts.entries.length ∧
      ¬ (register offsetParameters 0).Inverse) ∧
    (register sampleParameters 0).Inverse := by
  have offset : Registered offsetParameters 0 (register offsetParameters 0) := ⟨.rfl, .rfl, rfl, rfl⟩
  have sample : Registered sampleParameters 0 (register sampleParameters 0) := ⟨.rfl, .rfl, rfl, rfl⟩
  refine ⟨⟨by decide, ?_⟩, ?_⟩
  · intro inverse
    exact absurd ((registered_shorthandChecks offset).1.mpr inverse) (by decide)
  · obtain ⟨checks, distinct⟩ := registered_shorthandChecks sample
    exact checks.mp (distinct (by decide) (by decide))

end Snowlake.ArgumentParser
