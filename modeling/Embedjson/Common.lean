import Mathlib.Algebra.Order.Field.Rat
import Mathlib.Tactic

/-! The build options, the error codes and the number types of common.h. -/

namespace Embedjson

structure Config where
  debug : Bool
  dynamicStack : Bool
  staticStackSize : ℕ
  validateUtf8 : Bool
  bignum : Bool
  /-- The width in bits of `EMBEDJSON_INT_T`. -/
  intBits : ℕ
  /-- The bytes that a successful `embedjson_stack_overflow` adds to a stack of a given capacity. -/
  growth : ℕ → List UInt8

def Config.default : Config where
  debug := false
  dynamicStack := false
  staticStackSize := 16
  validateUtf8 := true
  bignum := false
  intBits := 64
  growth capacity := List.replicate (capacity + 1) 0

def Config.intMax (cfg : Config) : ℤ := 2 ^ (cfg.intBits - 2) - 1 + 2 ^ (cfg.intBits - 2)

/-- Two's complement at the width of `EMBEDJSON_INT_T`. -/
def Config.toInt (cfg : Config) (x : ℤ) : ℤ := x.bmod (2 ^ cfg.intBits)

/-- The `double` operations of lexer.c. `powm10` is the table of powers of ten, and the only law
kept is that an IEEE sum does not depend on the order of its two terms. -/
class DoubleArith (δ : Type) where
  ofInt : ℤ → δ
  add : δ → δ → δ
  sub : δ → δ → δ
  mul : δ → δ → δ
  powm10 : ℤ → δ
  add_comm : ∀ x y, add x y = add y x

instance : DoubleArith ℚ where
  ofInt x := x
  add x y := x + y
  sub x y := x - y
  mul x y := x * y
  powm10 n := (10 : ℚ) ^ (-n)
  add_comm := Rat.add_comm

inductive ErrorCode where
  | ok
  | badUtf8
  | longUtf8
  | badUnicodeEscape
  | badExponent
  | badTrue
  | badFalse
  | badNull
  | eofInString
  | eofInExponent
  | eofInTrue
  | eofInFalse
  | eofInNull
  | stackOverflow
  | unexpCloseCurly
  | unexpCloseBracket
  | unexpComma
  | unexpColon
  | expColon
  | expObjectKeyOrCloseCurly
  | expObjectKey
  | expObjectValue
  | expCommaOrCloseBracket
  | expCommaOrCloseCurly
  | expArrayValue
  | excessiveInput
  | insufficientInput
  | unexpSymbol
  | leadingZero
  | leadingPlus
  | emptyFrac
  | emptyExp
  | badEscape
  | unescapedControlChar
  | exponentOverflow
  | intOverflow
  | internalError
  deriving DecidableEq, Repr

/-- A `const char*`: null, an index into the buffer of the current push, or a side buffer. -/
inductive Pointer where
  | null
  | buffer (index : ℤ)
  | scratch
  deriving DecidableEq, Repr

end Embedjson
