import Embedjson.Foundations.Callbacks
import Embedjson.Parser.Push

/-! The program embedjson-lint, which feeds the bytes of a file to the parser one by one. -/

namespace Embedjson

open Foundations Foundations.Program

variable {δ : Type}

def bugReport : String := "Please report a bug at https://github.com/ivochkin/embedjson/issues/new"

/-- A table of messages, one for every code. The enumeration leaves nothing for its default. -/
def embedjsonStrerror : ErrorCode → String
  | .ok => "EMBEDJSON_OK: No error (0)"
  | .badUtf8 => "EMBEDJSON_BAD_UTF8: Malformed UTF-8 byte sequence (1)"
  | .longUtf8 => "EMBEDJSON_LONG_UTF8: UTF-8 byte sequence more than 4 bytes long (2)"
  | .badUnicodeEscape =>
    "EMBEDJSON_BAD_UNICODE_ESCAPE: Unexpected character in the unicode escape sequence (3)"
  | .badExponent =>
    "EMBEDJSON_BAD_EXPONENT: Unexpected character in the exponent part of " ++
      "the floating-point number (4)"
  | .badTrue => "EMBEDJSON_BAD_TRUE: Unknown keyword, \"true\" expected (5)"
  | .badFalse => "EMBEDJSON_BAD_FALSE: Unknown keyword, \"false\" expected (6)"
  | .badNull => "EMBEDJSON_BAD_NULL: Unknown keyword, \"null\" expected (7)"
  | .eofInString =>
    "EMBEDJSON_EOF_IN_STRING: Got end-of-stream while parsing unicode escape sequence (8)"
  | .eofInExponent =>
    "EMBEDJSON_EOF_IN_EXPONENT: Got end-of-stream while parsing floating-point exponent (9)"
  | .eofInTrue => "EMBEDJSON_EOF_IN_TRUE: Got end-of-stream while parsing \"true\" keyword (10)"
  | .eofInFalse => "EMBEDJSON_EOF_IN_FALSE: Got end-of-stream while parsing \"false\" keyword (11)"
  | .eofInNull => "EMBEDJSON_EOF_IN_NULL: Got end-of-stream while parsing \"null\" keyword (12)"
  | .stackOverflow => "EMBEDJSON_STACK_OVERFLOW: Object/array nesting level is too big. (13)"
  | .unexpCloseCurly =>
    "EMBEDJSON_UNEXP_CLOSE_CURLY: Expected object, array, or primitive value, " ++
      "got closing curly bracket (14)"
  | .unexpCloseBracket =>
    "EMBEDJSON_UNEXP_CLOSE_BRACKET: " ++
      "Expected object, array, or primitive value, got closing bracket (15)"
  | .unexpComma =>
    "EMBEDJSON_UNEXP_COMMA: Expected object, array, or primitive value, got comma (16)"
  | .unexpColon =>
    "EMBEDJSON_UNEXP_COLON: Expected object, array, or primitive value, got colon (17)"
  | .expColon => "EMBEDJSON_EXP_COLON: Expected colon following json object's key (18)"
  | .expObjectKeyOrCloseCurly =>
    "EMBEDJSON_EXP_OBJECT_KEY_OR_CLOSE_CURLY: " ++
      "Expected string as object key, or close curly bracket (19)"
  | .expObjectKey => "EMBEDJSON_EXP_OBJECT_KEY: Expected string as object key (20)"
  | .expObjectValue =>
    "EMBEDJSON_EXP_OBJECT_VALUE: Expected object, array, or primitive value as " ++
      "the value of json object (21)"
  | .expCommaOrCloseBracket =>
    "EMBEDJSON_EXP_COMMA_OR_CLOSE_BRACKET: " ++
      "Expected comma as object items separator, or close square bracket (22)"
  | .expCommaOrCloseCurly =>
    "EMBEDJSON_EXP_COMMA_OR_CLOSE_CURLY: " ++
      "Expected comma as object items separator, or close curly bracket (23)"
  | .expArrayValue =>
    "EMBEDJSON_EXP_ARRAY_VALUE: Expected object, array, or primitive value as " ++
      "the value of json array (24)"
  | .excessiveInput =>
    "EMBEDJSON_EXCESSIVE_INPUT: Expected end-of-stream since JSON parsing is complete (25)"
  | .insufficientInput =>
    "EMBEDJSON_INSUFFICIENT_INPUT: Not enough data to complete JSON parsing (26)"
  | .unexpSymbol =>
    "EMBEDJSON_UNEXP_SYMBOL: Expected object, array, or primitive value, " ++
      "got unexpected symbol (27)"
  | .leadingZero => "EMBEDJSON_LEADING_ZERO: Got number starting with a leading zero (28)"
  | .leadingPlus => "EMBEDJSON_LEADING_PLUS: Got number starting with a leading plus (29)"
  | .emptyFrac => "EMBEDJSON_EMPTY_FRAC: Got empty fractional part of the number (30)"
  | .emptyExp => "EMBEDJSON_EMPTY_EXP: Got empty exponential part of the number (31)"
  | .badEscape =>
    "EMBEDJSON_BAD_ESCAPE: Got unexpected symbol while parsing escape sequence (32)"
  | .unescapedControlChar =>
    "EMBEDJSON_UNESCAPED_CONTROL_CHAR: Got unescaped ASCII control character (33)"
  | .exponentOverflow =>
    "EMBEDJSON_EXPONENT_OVERFLOW: Too large exponent part of the floating-point number (34)"
  | .intOverflow => "EMBEDJSON_INT_OVERFLOW: Too large integer value (35)"
  | .internalError => "EMBEDJSON_INTERNAL_ERROR: Unexpected internal error (36). " ++ bugReport

/-- What the program uses of its environment. -/
structure Host (δ : Type) where
  /-- The bytes that `read` returns from a file, or from the standard input, one at a time. A file that
  cannot be opened has none. -/
  contents : Option String → List UInt8
  /-- The text of a `double`, as `%lf` prints it. -/
  double : δ → List UInt8
  /-- The outcome of the `n`-th `realloc`. -/
  realloc : ℕ → Bool

/-- The static variables of embedjson_lint.c, and what it has written. -/
structure Lint where
  verbose : Bool
  inputFile : Option String
  errorPosition : Pointer
  errorCode : ErrorCode
  stdout : List UInt8
  stderr : List UInt8
  reallocs : ℕ
  /-- A ghost, set by a read outside the variable `ch`. -/
  broken : Bool

def Lint.zero : Lint := ⟨false, none, .null, .ok, [], [], 0, false⟩

def Lint.ascii (s : String) : List UInt8 := s.toList.map Char.toUInt8

/-- `EMBEDJSON_PRINTF`. -/
def Lint.print (s : Lint) (line : List UInt8) : Lint :=
  if s.verbose then { s with stdout := s.stdout ++ line } else s

/-- `%.*s`, which ends at a zero byte. -/
def Lint.upToNul (bytes : List UInt8) : List UInt8 := bytes.takeWhile (· ≠ 0)

/-- What a callback prints when it is verbose. `%lld` has a meaning for integers of up to 64 bits. -/
def Lint.line (host : Host δ) : UserCall δ → List UInt8
  | .null => ascii "null\n"
  | .bool value => ascii "bool " ++ ascii (if value then "true" else "false") ++ ascii "\n"
  | .int value => ascii "int " ++ ascii (toString value) ++ ascii "\n"
  | .double value => ascii "double " ++ host.double value ++ ascii "\n"
  | .stringBegin => ascii "begin string\n"
  | .stringChunk bytes => ascii "string " ++ upToNul bytes ++ ascii "\n"
  | .stringEnd => ascii "end string\n"
  | .objectBegin => ascii "begin object\n"
  | .objectEnd => ascii "end object\n"
  | .arrayBegin => ascii "begin array\n"
  | .arrayEnd => ascii "end array\n"
  | .bignumBegin value =>
    ascii "begin big number, initial value " ++ ascii (toString value) ++ ascii "\n"
  | .bignumChunk bytes => ascii "bignum " ++ upToNul bytes ++ ascii "\n"
  | .bignumEnd => ascii "end bignum\n"
  | .stackOverflow | .error _ _ => []

/-- The callbacks. Only a dynamic build has `embedjson_stack_overflow`. The code of an error does not
reach the application, see `embedjson_error_ex`. -/
def lintCallback (cfg : Config) (host : Host δ) (u : UserCall δ) (s : Lint) : ℤ × Lint :=
  match u with
  | .error _ position => (1, { s with errorPosition := position, errorCode := .internalError })
  | .stackOverflow =>
    (if cfg.dynamicStack && !host.realloc s.reallocs then -1 else 0,
      { s with reallocs := s.reallocs + 1 })
  | u => (0, s.print (Lint.line host u))

/-- `*error_position`, where all buffers have consisted of the variable `ch`. -/
def Lint.symbol (ch : Option UInt8) : Pointer → Option UInt8
  | .null => some '?'.toUInt8
  | .buffer index => if index = 0 then ch else none
  | .scratch => none

def Lint.complain (s : Lint) (ch : Option UInt8) : Lint :=
  { s with
    stderr := s.stderr ++ ascii "error parsing json near symbol '" ++
      (symbol ch s.errorPosition).toList ++ ascii "': " ++ ascii (embedjsonStrerror s.errorCode) ++
      ascii "\n"
    broken := s.broken || (symbol ch s.errorPosition).isNone }

/-- The loop of `main` and what follows it. -/
def lintLoop [DoubleArith δ] (cfg : Config) (host : Host δ) :
    List UInt8 → Option UInt8 → Parser → Lint → ℤ × Lint
  | [], ch, parser, s =>
    let x := serve (lintCallback cfg host) (embedjsonFinalize cfg parser) s
    if x.1.1 ≠ 0 then (x.1.1, x.2.complain ch) else (0, x.2)
  | b :: input, _, parser, s =>
    let x := serve (lintCallback cfg host) (embedjsonPush cfg parser [b]) s
    if x.1.1 ≠ 0 then (x.1.1, x.2.complain (some b)) else lintLoop cfg host input (some b) x.1.2 x.2

def Lint.argument (s : Lint) (arg : String) : Lint :=
  if arg = "-v" then { s with verbose := true }
  else if arg = "--verbose" then { s with verbose := true }
  else { s with inputFile := some arg }

/-- The first loop of `main`, which skips `argv[0]`. -/
def lintArguments (argv : List String) : Lint := argv.tail.foldl Lint.argument .zero

/-- The value of `main`, of which the system keeps the last eight bits, and the variables behind it. -/
def lintMain [DoubleArith δ] (cfg : Config) (host : Host δ) (argv : List String) : ℤ × Lint :=
  lintLoop cfg host (host.contents (lintArguments argv).inputFile) none (.zero cfg)
    (lintArguments argv)

end Embedjson
