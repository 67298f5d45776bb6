import Snowlake.Parse.ParserDriver
import Snowlake.Parse.Printer
import Snowlake.Sema.WellFormed

/-! # Parsing undoes printing

A module is read back from every rendering of its tokens, so two modules that
can be written have different tokens.
-/

namespace Snowlake

/-- `yylex` returns the tokens of the module, and the parser the module. -/
theorem parseFromString_of_rendering {module : ASTModule} (writable : module.Writable)
    {text : List Char} (rendering : Rendering module.tokens text) (driver : ParserDriver) :
    driver.parseFromString text false = (0, ⟨module⟩) := by
  have read := Lexer.yylex_rendering rendering (ASTModule.tokens_writable writable)
  rw [ParserDriver.parseFromString, read]
  exact Parser.parse_of_input (ASTModule.derives writable) driver

theorem ASTModule.tokens_injective {left right : ASTModule} (leftWritable : left.Writable)
    (rightWritable : right.Writable) (same : left.tokens = right.tokens) : left = right :=
  Parser.input_unique (ASTModule.derives leftWritable) (same ▸ ASTModule.derives rightWritable)

/-- However the tokens of a module are laid out, the driver
has the module after reading it; and no other module has these tokens. -/
theorem parseFromString_tokens {module : ASTModule} (writable : module.Writable) :
    (∀ text, Rendering module.tokens text → ∀ driver : ParserDriver,
      driver.parseFromString text false = (0, ⟨module⟩)) ∧
    ∀ other : ASTModule, other.Writable → other.tokens = module.tokens → other = module :=
  ⟨fun _ rendering driver => parseFromString_of_rendering writable rendering driver,
    fun _ otherWritable same => ASTModule.tokens_injective otherWritable writable same⟩

/-- The inference of the tutorial, with a blank between any two tokens. -/
theorem staticMethodStaticDispatch_parseFromString :
    ParserDriver.parseFromString
        (spaced (ASTModule.ofInference staticMethodStaticDispatch).tokens) false ⟨⟨[]⟩⟩ =
      (0, ⟨ASTModule.ofInference staticMethodStaticDispatch⟩) :=
  (parseFromString_tokens (by decide)).1 _ (rendering_spaced _) _

end Snowlake
