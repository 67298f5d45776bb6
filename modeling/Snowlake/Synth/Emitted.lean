import Snowlake.Synth.Synthesizer

/-! # The emitted language

The part of C++ that the body of a synthesized function is written in, as
syntax trees, and its text.  `Emitted.lean` fixes what the statements look like;
what they do is the business of the semantics built over them.
-/

namespace Snowlake

namespace Emitted

open Synthesizer

/-- An expression that denotes a type or an array of types. -/
inductive Expr where
  | ident (name : StringType)
  /-- `name[index]` -/
  | element (name : StringType) (index : IntegerType)
  /-- `*name` -/
  | deref (name : StringType)
  /-- `name(arguments, ...)` -/
  | call (name : StringType) (arguments : List Expr)
  deriving Repr

/-- The initializer of a declaration. -/
inductive Init where
  /-- The proof method applied to `source`. -/
  | proof (source : ASTIdentifiable)
  | value (expr : Expr)
  deriving Repr

/-- `T` or `std::vector<T>`, for the type class `T`. -/
inductive DeclType where
  | typeClass
  | vector
  deriving Repr, DecidableEq

/-- An operand of a comparison, possibly subscripted by a loop counter. -/
structure Operand where
  expr : Expr
  counter : Option StringType := none
  deriving Repr

/-- A call of the comparison method; without an operator its functor is
`std::equal_to<>()`. -/
structure Comparison where
  lhs : Operand
  rhs : Operand
  oprt : Option EqualityOperator
  deriving Repr

inductive Stmt where
  | blank
  | comment (text : String)
  | declare (type : DeclType) (name : StringType) (init : Init)
  /-- A call of the type annotation setup method. -/
  | setup (source : ASTIdentifiable) (target : Expr)
  /-- A call of the type annotation teardown method. -/
  | teardown (source : ASTIdentifiable) (target : Expr)
  /-- `if (!comparison) { body }` -/
  | ifNot (comparison : Comparison) (body : List Stmt)
  /-- `for (size_t i = lhsIdx, size_t j = rhsIdx; i < bound.size(); ++i, ++j) { body }` -/
  | forRange (lhsIdx rhsIdx : IntegerType) (bound : Expr) (body : List Stmt)
  /-- `*err = std::error_code(value, inference_error_category);` -/
  | setError (value : Nat)
  /-- `return T();` -/
  | returnDefault
  | returnValue (value : Expr)

/-- The names a group's environment definitions give to the type class and to
the hooks the emitted code calls. -/
structure Names where
  typeCls : StringType
  proofMethod : StringType
  typeCmpMethod : StringType
  setupMethod : StringType
  teardownMethod : StringType
  deriving Repr, DecidableEq

/-! ## Text -/

mutual
def Expr.render : Expr → String
  | .ident name => name
  | .element name index => name ++ "[" ++ toString index.toNat ++ "]"
  | .deref name => "*" ++ name
  | .call name arguments => name ++ "(" ++ Expr.renderList arguments ++ ")"

/-- Arguments, separated by commas. -/
def Expr.renderList : List Expr → String
  | [] => ""
  | [argument] => argument.render
  | argument :: rest => argument.render ++ ", " ++ Expr.renderList rest
end

variable (names : Names)

def Init.render : Init → String
  | .proof source => names.proofMethod ++ "(" ++ synthesizeIdentifiable source ++ ")"
  | .value expr => expr.render

def DeclType.render : DeclType → String
  | .typeClass => names.typeCls
  | .vector => "std::vector<" ++ names.typeCls ++ ">"

def Operand.render (operand : Operand) : String :=
  match operand.counter with
  | none => operand.expr.render
  | some counter => operand.expr.render ++ "[" ++ counter ++ "]"

def Comparison.functor (comparison : Comparison) : String :=
  match comparison.oprt with
  | none => "std::equal_to<>()"
  | some oprt => synthesizeEqualityOperator names.typeCls oprt

def Comparison.render (comparison : Comparison) : String :=
  names.typeCmpMethod ++ "(" ++ comparison.lhs.render ++ ", " ++ comparison.rhs.render ++ ", " ++
    comparison.functor names ++ ")"

mutual
/-- The lines of a statement at an indentation level. -/
def Stmt.render (indentLvl : Nat) : Stmt → String
  | .blank => "\n"
  | .comment text => renderIndentation indentLvl ++ text ++ "\n"
  | .declare type name init =>
      renderIndentation indentLvl ++ type.render names ++ " " ++ name ++ " = " ++
        init.render names ++ ";\n"
  | .setup source target =>
      renderIndentation indentLvl ++ names.setupMethod ++ "(" ++ synthesizeIdentifiable source ++
        ", " ++ target.render ++ ");\n"
  | .teardown source target =>
      renderIndentation indentLvl ++ names.teardownMethod ++ "(" ++ synthesizeIdentifiable source ++
        ", " ++ target.render ++ ");\n"
  | .ifNot comparison body =>
      renderIndentation indentLvl ++ "if (!" ++ comparison.render names ++ ") \x7b\n" ++
        Stmt.renderList (indentLvl + 1) body ++ renderIndentation indentLvl ++ "\x7d\n"
  | .forRange lhsIdx rhsIdx bound body =>
      renderIndentation indentLvl ++ "for (size_t i = " ++ toString lhsIdx.toNat ++
        ", size_t j = " ++ toString rhsIdx.toNat ++ "; i < " ++ bound.render ++
        ".size(); ++i, ++j) \x7b\n" ++
        Stmt.renderList (indentLvl + 1) body ++ renderIndentation indentLvl ++ "\x7d\n"
  | .setError value =>
      renderIndentation indentLvl ++ "*" ++ defaultErrorOutputParameterName ++
        " = std::error_code(" ++ toString value ++ ", " ++ globalErrorCategoryInstanceName ++ ");\n"
  | .returnDefault => renderIndentation indentLvl ++ "return " ++ names.typeCls ++ "();\n"
  | .returnValue value => renderIndentation indentLvl ++ "return " ++ value.render ++ ";\n"

def Stmt.renderList (indentLvl : Nat) : List Stmt → String
  | [] => ""
  | head :: tail => Stmt.render indentLvl head ++ Stmt.renderList indentLvl tail
end

@[simp] theorem Stmt.renderList_append (indentLvl : Nat) (first second : List Stmt) :
    Stmt.renderList names indentLvl (first ++ second) =
      Stmt.renderList names indentLvl first ++ Stmt.renderList names indentLvl second := by
  induction first with
  | nil => simp [Stmt.renderList]
  | cons head tail ih => simp only [List.cons_append, Stmt.renderList, ih, String.append_assoc]

end Emitted

end Snowlake
