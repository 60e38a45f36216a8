import Embedjson.Lexer.Push

/-! `embedjson_lexer_finalize` of lexer.c. -/

namespace Embedjson

open Foundations Foundations.Program DoubleArith

variable {δ : Type} [DoubleArith δ]

/-- The sum of `embedjson_lexer_finalize`, with its terms the other way round. -/
def finalDouble (lex : Lexer) : δ :=
  add (mul (ofInt lex.fracValue) (powm10 lex.fracPower)) (ofInt lex.intValue)

/-- The body of each `case`. Only the result code leaves the function, `*lexer` is not written. -/
def embedjsonLexerFinalize (cfg : Config) (lexer : Lexer) : Program (LexerCall δ) ℤ :=
  match lexer.state with
  | .lookupToken => .done 0
  | .inString | .inStringEscape | .inStringUnicodeEscape | .inNumberSign =>
    invoke (.errorEx .eofInString .null)
  | .inNumber => invoke (.tokeni (signedInt cfg lexer) .null)
  | .inNumberFrac => invoke (.tokenf (negateIf lexer.minus (finalDouble lexer)) .null)
  | .inNumberExpSign => invoke (.errorEx .eofInExponent .null)
  | .inNumberExp =>
    invoke (.tokenf (negateIf lexer.minus (scaleByExp lexer (finalDouble lexer))) .null)
  | .inBigNumber => invoke (.tokenbnEnd .null)
  | .inTrue => invoke (.errorEx .eofInTrue .null)
  | .inFalse => invoke (.errorEx .eofInFalse .null)
  | .inNull => invoke (.errorEx .eofInNull .null)

end Embedjson
