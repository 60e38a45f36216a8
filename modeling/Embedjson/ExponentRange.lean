import Embedjson.NumberAcceptance
import Embedjson.NumberTokens

namespace Embedjson

open Foundations Foundations.Program

variable {δ : Type} [DoubleArith δ] {cfg : Config} {lex : Lexer} {text : List UInt8} {b : UInt8}
  {s t : Scan} {calls : List (LexerCall δ)}

section Letters

lemma AtLookup.letter (h : AtLookup cfg lex) (hb : b = 'e'.toUInt8 ∨ b = 'E'.toUInt8) (index : ℤ) :
    (react cfg lex index b : Reaction δ) = .reject .unexpSymbol := by
  rw [h.react_eq]
  rcases hb with rfl | rfl <;> rfl

variable (hbits : 8 ≤ cfg.intBits)

include hbits

end Letters

end Embedjson
