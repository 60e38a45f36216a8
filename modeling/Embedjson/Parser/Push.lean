import Embedjson.Lexer.Finalize
import Embedjson.Parser.Token

/-! `embedjson_push` and `embedjson_finalize` of parser.c. -/

namespace Embedjson

open Foundations Foundations.Program

variable {δ : Type} [DoubleArith δ] (cfg : Config)

def embedjsonPush (p : Parser) (chunk : List UInt8) : ParserProgram δ :=
  (interpret (onLexerCall cfg) (embedjsonLexerPush cfg chunk p.lexer) p).bind fun a =>
    .done (a.1.1, { a.2 with lexer := a.1.2 })

def embedjsonFinalize (p : Parser) : ParserProgram δ :=
  (interpret (onLexerCall cfg) (embedjsonLexerFinalize cfg p.lexer) p).bind fun a =>
    if a.1 ≠ 0 then .done a
    else if a.2.state ≠ .done then returnErrorEx a.2 .insufficientInput .null
    else succeed a.2

/-- The pushes of an application, which stops at the first non-zero result. -/
def pushAll : Parser → List (List UInt8) → ParserProgram δ
  | p, [] => succeed p
  | p, chunk :: chunks =>
    (embedjsonPush cfg p chunk).bind fun a => if a.1 ≠ 0 then .done a else pushAll a.2 chunks

end Embedjson
