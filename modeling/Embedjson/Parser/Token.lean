import Embedjson.Parser.Stack

/-! The callbacks of the lexer that parser.c implements: `embedjson_token` and its siblings. -/

namespace Embedjson

open Foundations Foundations.Program

variable {δ : Type} (cfg : Config)

def returnErrorEx (p : Parser) (code : ErrorCode) (position : Pointer) : ParserProgram δ :=
  returnCall (.error code position) p

/-- `EMBEDJSON_CHECK_STATE(parser, position)` followed by `k`. -/
def checkState (p : Parser) (position : Pointer) (k : ParserProgram δ) : ParserProgram δ :=
  if cfg.debug ∧ p.state = .invalid then returnErrorEx p .internalError position else k

def openContainer (p : Parser) (value : StackValue) (f : UserCall δ) (state : ParserState) :
    ParserProgram δ :=
  (stackPush cfg p value).bind fun a =>
    if a.1 ≠ 0 then .done a else a.2.returnIf f (succeed { a.2 with state := state })

/-- The state after a closing bracket, once the stack has been popped. -/
def stateAfterClose (underCurly : ParserState) (p : Parser) : Parser :=
  if stackEmpty p then { p with state := .done }
  else if stackTop p = .curly then { readTop p with state := underCurly }
  else { readTop p with state := .maybeArrayComma }

def closeContainer (p : Parser) (value : StackValue) (f : UserCall δ) (underCurly : ParserState)
    (position : Pointer) : ParserProgram δ :=
  if cfg.debug ∧ (stackEmpty p ∨ stackTop p ≠ value) then returnErrorEx p .internalError position
  else p.returnIf f (succeed (stateAfterClose underCurly (stackPop p)))

def primitive (p : Parser) (f : UserCall δ) (state : ParserState) : ParserProgram δ :=
  p.returnIf f (succeed { p with state := state })

/-- The `switch (token)` that the states expecting a value share. `afterPrimitive` is the state
after a keyword and `closeBracket` the branch of a closing square bracket. -/
def valueToken (p : Parser) (token : Tok) (position : Pointer) (afterPrimitive : ParserState)
    (closeBracket : ParserProgram δ) : ParserProgram δ :=
  match token with
  | .openCurlyBracket => openContainer cfg p .curly .objectBegin .maybeObjectKey
  | .closeCurlyBracket => returnErrorEx p .unexpCloseCurly position
  | .openBracket => openContainer cfg p .square .arrayBegin .maybeArrayValue
  | .closeBracket => closeBracket
  | .comma => returnErrorEx p .unexpComma position
  | .colon => returnErrorEx p .unexpColon position
  | .true => primitive p (.bool true) afterPrimitive
  | .false => primitive p (.bool false) afterPrimitive
  | .null => primitive p .null afterPrimitive

def embedjsonToken (p : Parser) (token : Tok) (position : Pointer) : ParserProgram δ :=
  match p.state with
  | .expectValue =>
    valueToken cfg p token position .done (returnErrorEx p .unexpCloseBracket position)
  | .maybeObjectKey =>
    if token = .closeCurlyBracket then
      closeContainer cfg p .curly .objectEnd .maybeObjectComma position
    else returnErrorEx p .expObjectKey position
  | .expectObjectKey => returnErrorEx p .expObjectKey position
  | .expectColon =>
    if token ≠ .colon then returnErrorEx p .expColon position
    else succeed { p with state := .expectObjectValue }
  | .maybeObjectComma =>
    if token = .comma then succeed { p with state := .expectObjectKey }
    else if token = .closeCurlyBracket then
      closeContainer cfg p .curly .objectEnd .maybeObjectComma position
    else returnErrorEx p .expCommaOrCloseCurly position
  | .expectObjectValue =>
    valueToken cfg p token position .maybeObjectComma (returnErrorEx p .unexpCloseBracket position)
  | .maybeArrayValue =>
    -- An empty array inside an object leads to `maybeObjectKey` here.
    valueToken cfg p token position .maybeArrayComma
      (closeContainer cfg p .square .arrayEnd .maybeObjectKey position)
  | .expectArrayValue =>
    valueToken cfg p token position .maybeArrayComma (returnErrorEx p .unexpCloseBracket position)
  | .maybeArrayComma =>
    if token = .comma then succeed { p with state := .expectArrayValue }
    else if token = .closeBracket then
      closeContainer cfg p .square .arrayEnd .maybeObjectComma position
    else returnErrorEx p .expCommaOrCloseBracket position
  | .done => returnErrorEx p .excessiveInput position
  | .invalid => if cfg.debug then returnErrorEx p .internalError position else succeed p

def embedjsonTokenc (p : Parser) (data : Pointer) (bytes : List UInt8) : ParserProgram δ :=
  checkState cfg p data (returnCall (.stringChunk bytes) p)

/-- The `switch` of `embedjson_tokeni`, `embedjson_tokenf` and `embedjson_tokenbn_begin`, where
`f` is the callback. The two codes after a member and after an element stand as in the source. -/
def numberToken (p : Parser) (f : UserCall δ) (position : Pointer) : ParserProgram δ :=
  match p.state with
  | .expectValue => returnCall f { p with state := .done }
  | .maybeObjectKey => returnErrorEx p .expObjectKeyOrCloseCurly position
  | .expectObjectKey => returnErrorEx p .expObjectKey position
  | .expectColon => returnErrorEx p .expColon position
  | .maybeObjectComma => returnErrorEx p .expCommaOrCloseBracket position
  | .expectObjectValue => returnCall f { p with state := .maybeObjectComma }
  | .maybeArrayValue | .expectArrayValue => returnCall f { p with state := .maybeArrayComma }
  | .maybeArrayComma => returnErrorEx p .expCommaOrCloseCurly position
  | .done => returnErrorEx p .excessiveInput position
  | .invalid => if cfg.debug then returnErrorEx p .internalError position else succeed p

def embedjsonTokeni (p : Parser) (value : ℤ) (position : Pointer) : ParserProgram δ :=
  numberToken cfg p (.int value) position

def embedjsonTokenf (p : Parser) (value : δ) (position : Pointer) : ParserProgram δ :=
  numberToken cfg p (.double value) position

def embedjsonTokencBegin (p : Parser) (position : Pointer) : ParserProgram δ :=
  match p.state with
  | .expectValue | .maybeObjectKey | .expectObjectKey => returnCall .stringBegin p
  | .expectColon => returnErrorEx p .expColon position
  | .maybeObjectComma => returnErrorEx p .expCommaOrCloseCurly position
  | .expectObjectValue | .maybeArrayValue | .expectArrayValue => returnCall .stringBegin p
  | .maybeArrayComma => returnErrorEx p .expCommaOrCloseBracket position
  | .done => returnErrorEx p .excessiveInput position
  | .invalid => if cfg.debug then returnErrorEx p .internalError position else succeed p

/-- The table `next_state` of `embedjson_tokenc_end`, which has no entry for `invalid`. -/
def stringNextState : ParserState → Option ParserState
  | .expectValue => some .done
  | .maybeObjectKey => some .expectColon
  | .expectObjectKey => some .expectColon
  | .expectColon => some .invalid
  | .maybeObjectComma => some .invalid
  | .expectObjectValue => some .maybeObjectComma
  | .maybeArrayValue => some .maybeArrayComma
  | .expectArrayValue => some .maybeArrayComma
  | .maybeArrayComma => some .invalid
  | .done => some .invalid
  | .invalid => none

/-- The table `next_state` of `embedjson_tokenbn_end`. -/
def bignumNextState : ParserState → Option ParserState
  | .expectValue => some .done
  | .maybeObjectKey => some .invalid
  | .expectObjectKey => some .invalid
  | .expectColon => some .invalid
  | .maybeObjectComma => some .invalid
  | .expectObjectValue => some .maybeObjectComma
  | .maybeArrayValue => some .maybeArrayComma
  | .expectArrayValue => some .maybeArrayComma
  | .maybeArrayComma => some .invalid
  | .done => some .invalid
  | .invalid => none

/-- `parser->state = next_state[parser->state]`. -/
def lookupNextState (table : ParserState → Option ParserState) (p : Parser) : Parser :=
  match table p.state with
  | some state => { p with state := state }
  | none => { p with broken := true }

/-- `embedjson_tokenc_end` and `embedjson_tokenbn_end`, which differ in table and callback. -/
def endToken (table : ParserState → Option ParserState) (f : UserCall δ) (p : Parser)
    (position : Pointer) : ParserProgram δ :=
  checkState cfg p position
    (checkState cfg (lookupNextState table p) position (returnCall f (lookupNextState table p)))

def embedjsonTokencEnd (p : Parser) (position : Pointer) : ParserProgram δ :=
  endToken cfg stringNextState .stringEnd p position

def embedjsonTokenbnBegin (p : Parser) (position : Pointer) (initialValue : ℤ) : ParserProgram δ :=
  numberToken cfg p (.bignumBegin initialValue) position

def embedjsonTokenbn (p : Parser) (data : Pointer) (bytes : List UInt8) : ParserProgram δ :=
  checkState cfg p data (returnCall (.bignumChunk bytes) p)

def embedjsonTokenbnEnd (p : Parser) (position : Pointer) : ParserProgram δ :=
  endToken cfg bignumNextState .bignumEnd p position

/-- The functions of parser.c behind the calls of the lexer. -/
def onLexerCall (call : LexerCall δ) (p : Parser) : ParserProgram δ :=
  match call with
  | .token token position => embedjsonToken cfg p token position
  | .tokenc data bytes => embedjsonTokenc cfg p data bytes
  | .tokeni value position => embedjsonTokeni cfg p value position
  | .tokenf value position => embedjsonTokenf cfg p value position
  | .tokencBegin position => embedjsonTokencBegin cfg p position
  | .tokencEnd position => embedjsonTokencEnd cfg p position
  | .tokenbnBegin position initialValue => embedjsonTokenbnBegin cfg p position initialValue
  | .tokenbn data bytes => embedjsonTokenbn cfg p data bytes
  | .tokenbnEnd position => embedjsonTokenbnEnd cfg p position
  | .errorEx code position => returnErrorEx p code position

end Embedjson
