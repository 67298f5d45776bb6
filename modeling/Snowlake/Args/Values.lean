import Snowlake.Parse.Lexer

/-! # Values of command line options

`value_type` of `ArgumentParser.h`, and what `CmdlOptionValueCast` reads from a
text: `T val; std::stringstream ss(m_raw_value); ss >> val;`.
-/

namespace Snowlake.ArgumentParser

open Lexer

/-- A `std::string` made of a `char*`. -/
abbrev Text := List Char

/-- What the implementation of C++ decides: its floating point numbers, and what
a variable holds that nothing was assigned to. -/
structure Platform where
  Float : Type
  Double : Type
  extractBool : Text → Bool
  extractFloat : Text → Float
  extractDouble : Text → Double
  uninitializedUint32 : UInt32
  uninitializedUint64 : UInt64

inductive ValueType where
  | string
  | uint32
  | uint64
  | bool
  | float
  | double
  deriving Repr, DecidableEq

variable {platform : Platform}

inductive Value (platform : Platform) where
  | string (value : Text)
  | uint32 (value : UInt32)
  | uint64 (value : UInt64)
  | bool (value : Bool)
  | float (value : platform.Float)
  | double (value : platform.Double)

def Value.type : Value platform → ValueType
  | .string _ => .string
  | .uint32 _ => .uint32
  | .uint64 _ => .uint64
  | .bool _ => .bool
  | .float _ => .float
  | .double _ => .double

/-- `ss >> val` for an unsigned type of `width` bits.  It skips white space and
reads a sign and digits, as `strtoull` does; what follows stays in the stream.
A number that is too large gives the greatest value, a minus sign wraps around,
and without digits the value is 0.  If there is nothing to read, `val` is left
as it is. -/
def extractUnsigned (width : Nat) (rawValue : Text) : Option Nat :=
  let field := rawValue.dropWhile isSpace
  if field = [] then none
  else
    let (negative, digits) := splitSign field
    let magnitude := Nat.ofDigitChars 10 (digits.takeWhile isDigit) 0
    if magnitude ≥ 2 ^ width then some (2 ^ width - 1)
    else if negative then some ((2 ^ width - magnitude) % 2 ^ width)
    else some magnitude

/-- `CmdlOptionValueCast`, applied to the default value. -/
def Value.cast (rawValue : Text) : Value platform → Value platform
  | .string _ => .string rawValue
  | .uint32 _ => .uint32 (((extractUnsigned 32 rawValue).map UInt32.ofNat).getD platform.uninitializedUint32)
  | .uint64 _ => .uint64 (((extractUnsigned 64 rawValue).map UInt64.ofNat).getD platform.uninitializedUint64)
  | .bool _ => .bool (platform.extractBool rawValue)
  | .float _ => .float (platform.extractFloat rawValue)
  | .double _ => .double (platform.extractDouble rawValue)

@[simp]
theorem Value.cast_type (rawValue : Text) (value : Value platform) :
    (value.cast rawValue).type = value.type := by
  cases value <;> rfl

end Snowlake.ArgumentParser
