import Embedjson.Foundations.Program
import Embedjson.Lexer.State

/-! `embedjson_lexer_push` of lexer.c. -/

namespace Embedjson

open Foundations Foundations.Program

variable {δ : Type}

/-- The locals of `embedjson_lexer_push`. `data` is an index into the chunk and may step before
its first byte. -/
structure Cursor where
  lex : Lexer
  data : ℤ
  stringChunkBegin : Pointer
  deriving DecidableEq, Repr

def Cursor.position (c : Cursor) : Pointer := .buffer c.data

/-- How a part of the function ends: with a `return` of a code, or by falling through. -/
abbrev Flow (α : Type) := Except ℤ α

abbrev LexerProgram (δ α : Type) := Program (LexerCall δ) (Flow α)

def fallThrough {α : Type} (a : α) : LexerProgram δ α := .done (.ok a)

/-- `RETURN_IF(f)` followed by `k`. -/
def returnIf {α : Type} (f : LexerCall δ) (k : LexerProgram δ α) : LexerProgram δ α :=
  .call f fun err => if err ≠ 0 then .done (.error err) else k

/-- `return embedjson_error_ex(lexer, code, position)`. -/
def returnError {α : Type} (code : ErrorCode) (position : Pointer) : LexerProgram δ α :=
  .call (.errorEx code position) fun r => .done (.error r)

def isDigit (b : UInt8) : Bool := '0'.toUInt8 ≤ b && b ≤ '9'.toUInt8

def digit (b : UInt8) : ℤ := (b.toNat : ℤ) - 48

def asInt (magic : Vector UInt8 4) : BitVec 32 :=
  magic[3].toBitVec ++ magic[2].toBitVec ++ magic[1].toBitVec ++ magic[0].toBitVec

def guessEncoding (magic : Vector UInt8 4) : Encoding :=
  if asInt magic ||| 0x000000FF#32 = 0x000000FF#32 then .utf32be
  else if asInt magic ||| 0xFF000000#32 = 0xFF000000#32 then .utf32le
  else if asInt magic ||| 0x00FF00FF#32 = 0x00FF00FF#32 then .utf16be
  else if asInt magic ||| 0xFF00FF00#32 = 0xFF00FF00#32 then .utf16le
  else .utf8

/-- The top of the loop body, which records the magic bytes and guesses the encoding. -/
def recordMagic (lex : Lexer) (b : UInt8) : Lexer :=
  if h : lex.magicBytesRead < 4 then
    { lex with
      magic := lex.magic.set lex.magicBytesRead b
      magicBytesRead := lex.magicBytesRead + 1 }
  else if lex.encoding = .unknown then
    { lex with encoding := guessEncoding lex.magic }
  else lex

/-- The bytes of the chunk between two pointers. -/
def range (chunk : List UInt8) (first : Pointer) (last : ℤ) : List UInt8 :=
  match first with
  | .buffer i => (chunk.drop i.toNat).take (last - i).toNat
  | _ => []

/-- `if (data != string_chunk_begin) { RETURN_IF(embedjson_tokenc(...)); }` followed by `k`. -/
def flush {α : Type} (tokenc : Pointer → List UInt8 → LexerCall δ) (chunk : List UInt8)
    (c : Cursor) (k : LexerProgram δ α) : LexerProgram δ α :=
  if c.position ≠ c.stringChunkBegin then
    returnIf (tokenc c.stringChunkBegin (range chunk c.stringChunkBegin c.data)) k
  else k

def lookupToken (c : Cursor) (b : UInt8) : LexerProgram δ Cursor :=
  if b = ' '.toUInt8 ∨ b = '\n'.toUInt8 ∨ b = '\r'.toUInt8 ∨ b = '\t'.toUInt8 then fallThrough c
  else if b = ':'.toUInt8 then returnIf (.token .colon c.position) (fallThrough c)
  else if b = ','.toUInt8 then returnIf (.token .comma c.position) (fallThrough c)
  else if b = '{'.toUInt8 then returnIf (.token .openCurlyBracket c.position) (fallThrough c)
  else if b = '}'.toUInt8 then returnIf (.token .closeCurlyBracket c.position) (fallThrough c)
  else if b = '['.toUInt8 then returnIf (.token .openBracket c.position) (fallThrough c)
  else if b = ']'.toUInt8 then returnIf (.token .closeBracket c.position) (fallThrough c)
  else if b = '\"'.toUInt8 then
    returnIf (.tokencBegin c.position) (fallThrough
      { c with stringChunkBegin := .buffer (c.data + 1), lex := { c.lex with state := .inString } })
  else if b = 't'.toUInt8 then
    fallThrough { c with lex := { c.lex with offset := 1, state := .inTrue } }
  else if b = 'f'.toUInt8 then
    fallThrough { c with lex := { c.lex with offset := 1, state := .inFalse } }
  else if b = 'n'.toUInt8 then
    fallThrough { c with lex := { c.lex with offset := 1, state := .inNull } }
  else if b = '-'.toUInt8 then
    fallThrough { c with lex := { c.lex with minus := true, state := .inNumberSign } }
  else if b = '+'.toUInt8 then returnError .leadingPlus c.position
  else if isDigit b then
    fallThrough { c with lex := { c.lex with intValue := digit b, state := .inNumber } }
  else returnError .unexpSymbol c.position

/-- The continuation-byte check of a multibyte sequence, where `nb` is not zero. -/
def continuation (lex : Lexer) (b : UInt8) : Except ErrorCode Lexer :=
  if lex.nb = 2 ∧ lex.cc = 1 then
    if b &&& 0xe0 ≠ 0xa0 then .error .badUtf8 else .ok { lex with cc := 0, nb := lex.nb - 1 }
  else if lex.nb = 3 then
    if lex.cc = 2 then
      if b &&& 0xd0 ≠ 0x90 then .error .badUtf8 else .ok { lex with cc := 0, nb := lex.nb - 1 }
    else if lex.cc = 3 then
      if b &&& 0xf0 ≠ 0x80 then .error .badUtf8 else .ok { lex with cc := 0, nb := lex.nb - 1 }
    else .ok { lex with nb := lex.nb - 1 }
  else if b &&& 0xc0 ≠ 0x80 then .error .badUtf8
  else .ok { lex with nb := lex.nb - 1 }

/-- The lead-byte ladder. The Boolean tells whether its last `else` is taken. -/
def leadByte (lex : Lexer) (b : UInt8) : Except ErrorCode (Lexer × Bool) :=
  if b &&& 0xe0 = 0xc0 then .ok ({ lex with nb := 1 }, false)
  else if b &&& 0xf0 = 0xe0 then
    .ok ({ lex with cc := if b = 0xe0 then 1 else lex.cc, nb := 2 }, false)
  else if b &&& 0xf8 = 0xf0 then
    .ok ({ lex with cc := if b = 0xf0 then 2 else if b = 0xf4 then 3 else lex.cc, nb := 3 }, false)
  else if b &&& 0xf8 = 0xf8 then .error .longUtf8
  else .ok (lex, true)

/-- The block under `EMBEDJSON_VALIDATE_UTF8`. -/
def checkUtf8 (cfg : Config) (lex : Lexer) (b : UInt8) : Except ErrorCode (Lexer × Bool) :=
  if cfg.validateUtf8 then
    if lex.nb ≠ 0 then (continuation lex b).bind fun lex => leadByte lex b
    else leadByte lex b
  else .ok (lex, true)

def inString (cfg : Config) (chunk : List UInt8) (c : Cursor) (b : UInt8) : LexerProgram δ Cursor :=
  match checkUtf8 cfg c.lex b with
  | .error code => returnError code c.position
  | .ok (lex, false) => fallThrough { c with lex := lex }
  | .ok (lex, true) =>
    if b = '\\'.toUInt8 then
      flush .tokenc chunk c (fallThrough { c with lex := { lex with state := .inStringEscape } })
    else if b = '\"'.toUInt8 then
      flush .tokenc chunk c (returnIf (.tokencEnd c.position)
        (fallThrough { c with lex := { lex with state := .lookupToken } }))
    else if cfg.validateUtf8 ∧ lex.nb = 0 ∧ b < 0x20 then returnError .badUtf8 c.position
    else fallThrough { c with lex := lex }

/-- The byte a simple escape stands for. -/
def escapeByte (b : UInt8) : Option UInt8 :=
  if b = '\"'.toUInt8 then some '\"'.toUInt8
  else if b = '\\'.toUInt8 then some '\\'.toUInt8
  else if b = '/'.toUInt8 then some '/'.toUInt8
  else if b = 'b'.toUInt8 then some 0x08
  else if b = 'f'.toUInt8 then some 0x0c
  else if b = 'n'.toUInt8 then some '\n'.toUInt8
  else if b = 'r'.toUInt8 then some '\r'.toUInt8
  else if b = 't'.toUInt8 then some '\t'.toUInt8
  else none

def inStringEscape (c : Cursor) (b : UInt8) : LexerProgram δ Cursor :=
  match escapeByte b with
  | some e =>
    returnIf (.tokenc .scratch [e]) (fallThrough
      { c with stringChunkBegin := .buffer (c.data + 1), lex := { c.lex with state := .inString } })
  | none =>
    if b = 'u'.toUInt8 then
      fallThrough { c with lex := { c.lex with state := .inStringUnicodeEscape, offset := 0 } }
    else returnError .badEscape c.position

def hexDigit (b : UInt8) : Option UInt8 :=
  if '0'.toUInt8 ≤ b ∧ b ≤ '9'.toUInt8 then some (b - '0'.toUInt8)
  else if 'a'.toUInt8 ≤ b ∧ b ≤ 'f'.toUInt8 then some (10 + b - 'a'.toUInt8)
  else if 'A'.toUInt8 ≤ b ∧ b ≤ 'F'.toUInt8 then some (10 + b - 'A'.toUInt8)
  else none

/-- The inner `switch` and the increment of `lex.offset`. -/
def pushHexDigit (lex : Lexer) (value : UInt8) : Lexer :=
  let unicodeCp := match lex.offset with
    | 0 => (value <<< 4, lex.unicodeCp.2)
    | 1 => (lex.unicodeCp.1 ||| value, lex.unicodeCp.2)
    | 2 => (lex.unicodeCp.1, value <<< 4)
    | 3 => (lex.unicodeCp.1, lex.unicodeCp.2 ||| value)
    | _ => lex.unicodeCp
  { lex with
    unicodeCp := unicodeCp
    state := if lex.offset = 3 then .inString else lex.state
    offset := lex.offset + 1 }

def inStringUnicodeEscape (c : Cursor) (b : UInt8) : LexerProgram δ Cursor :=
  match hexDigit b with
  | none => returnError .badUnicodeEscape c.position
  | some value =>
    let lex := pushHexDigit c.lex value
    if c.lex.offset = 3 then
      returnIf (.tokenc .scratch [lex.unicodeCp.1, lex.unicodeCp.2])
        (fallThrough { c with stringChunkBegin := .buffer (c.data + 1), lex := lex })
    else fallThrough { c with lex := lex }

def pushIntDigit (cfg : Config) (lex : Lexer) (b : UInt8) : Lexer :=
  { lex with intValue := cfg.toInt (10 * lex.intValue + digit b) }

def inNumberSign (cfg : Config) (c : Cursor) (b : UInt8) : LexerProgram δ Cursor :=
  if isDigit b then
    fallThrough { c with lex := { pushIntDigit cfg c.lex b with state := .inNumber } }
  else returnError .eofInString c.position

def signedInt (cfg : Config) (lex : Lexer) : ℤ :=
  if lex.minus then cfg.toInt (0 - lex.intValue) else lex.intValue

def inNumber (cfg : Config) (c : Cursor) (b : UInt8) : LexerProgram δ Cursor :=
  if isDigit b then
    if c.lex.intValue = 0 then returnError .leadingZero c.position
    else if c.lex.intValue > cfg.toInt (cfg.intMax / 10 - digit b) then
      if cfg.bignum then
        returnIf (.tokenbnBegin c.position c.lex.intValue) (fallThrough
          { c with
            stringChunkBegin := .buffer (c.data + 1)
            lex := { c.lex with state := .inBigNumber } })
      else returnError .intOverflow c.position
    else fallThrough { c with lex := pushIntDigit cfg c.lex b }
  else if b = '.'.toUInt8 then fallThrough { c with lex := { c.lex with state := .inNumberFrac } }
  else if b = 'e'.toUInt8 ∨ b = 'E'.toUInt8 then
    fallThrough { c with lex := { c.lex with state := .inNumberExpSign } }
  else
    let c := { c with data := c.data - 1 }
    returnIf (.tokeni (signedInt cfg c.lex) c.position) (fallThrough
      { c with lex := { c.lex with intValue := 0, minus := false, state := .lookupToken } })

def pushFracDigit (lex : Lexer) (b : UInt8) : Lexer :=
  { lex with
    fracValue := ((10 * lex.fracValue + digit b) % 2 ^ 64).toNat
    fracPower := (lex.fracPower + 1) % 2 ^ 16 }

section Values

variable [DoubleArith δ]

open DoubleArith

def negateIf (minus : Bool) (value : δ) : δ :=
  if minus then sub (ofInt 0) value else value

def fracDouble (lex : Lexer) : δ :=
  add (ofInt lex.intValue) (mul (ofInt lex.fracValue) (powm10 lex.fracPower))

def scaleByExp (lex : Lexer) (value : δ) : δ :=
  mul value (powm10 (if lex.expMinus then lex.expValue else 0 - lex.expValue))

def inNumberFrac (c : Cursor) (b : UInt8) : LexerProgram δ Cursor :=
  if isDigit b then fallThrough { c with lex := pushFracDigit c.lex b }
  else if b = 'e'.toUInt8 ∨ b = 'E'.toUInt8 then
    if c.lex.fracPower = 0 then returnError .emptyFrac c.position
    else fallThrough { c with lex := { c.lex with state := .inNumberExpSign } }
  else if c.lex.fracPower = 0 then returnError .emptyFrac c.position
  else
    let c := { c with data := c.data - 1 }
    returnIf (.tokenf (negateIf c.lex.minus (fracDouble c.lex)) c.position) (fallThrough
      { c with lex := { c.lex with
          intValue := 0, fracPower := 0, fracValue := 0, minus := false, state := .lookupToken } })

def inNumberExpSign (c : Cursor) (b : UInt8) : LexerProgram δ Cursor :=
  if b = '-'.toUInt8 then
    fallThrough { c with lex := { c.lex with expMinus := true, state := .inNumberExp } }
  else if isDigit b then
    fallThrough { c with lex := { c.lex with
      expValue := (digit b).toNat, expNotEmpty := true, state := .inNumberExp } }
  else if b ≠ '+'.toUInt8 then returnError .badExponent c.position
  else fallThrough { c with lex := { c.lex with state := .inNumberExp } }

def pushExpDigit (lex : Lexer) (b : UInt8) : Lexer :=
  { lex with
    expValue := ((10 * lex.expValue + digit b) % 2 ^ 16).toNat
    expNotEmpty := true }

def resetNumber (lex : Lexer) : Lexer :=
  { lex with
    intValue := 0, fracPower := 0, fracValue := 0, minus := false
    expValue := 0, expMinus := false, expNotEmpty := false, state := .lookupToken }

def inNumberExp (c : Cursor) (b : UInt8) : LexerProgram δ Cursor :=
  if isDigit b then
    let lex := pushExpDigit c.lex b
    if (lex.expMinus ∧ lex.expValue > 323) ∨ (¬lex.expMinus ∧ lex.expValue > 308) then
      returnError .exponentOverflow c.position
    else fallThrough { c with lex := lex }
  else if ¬c.lex.expNotEmpty then returnError .emptyExp c.position
  else
    let c := { c with data := c.data - 1 }
    returnIf (.tokenf (negateIf c.lex.minus (scaleByExp c.lex (fracDouble c.lex))) c.position)
      (fallThrough { c with lex := resetNumber c.lex })

end Values

def inBigNumber (chunk : List UInt8) (c : Cursor) (b : UInt8) : LexerProgram δ Cursor :=
  if isDigit b ∨ b = 'e'.toUInt8 ∨ b = 'E'.toUInt8 ∨ b = '-'.toUInt8 ∨ b = '.'.toUInt8 then
    fallThrough c
  else
    flush .tokenbn chunk c
      (returnIf (.tokenbnEnd (.buffer (c.data - 1)))
        (fallThrough { c with data := c.data - 1, lex := resetNumber c.lex }))

/-- The three keyword states. The literal of the source ends with a zero byte. -/
def inKeyword (keyword : String) (code : ErrorCode) (tok : Tok) (last : ℕ) (c : Cursor)
    (b : UInt8) : LexerProgram δ Cursor :=
  if some b ≠ (keyword.toList.map Char.toUInt8 ++ [0])[c.lex.offset]? then
    returnError code c.position
  else
    let lex := { c.lex with offset := c.lex.offset + 1 }
    if lex.offset > last then
      returnIf (.token tok c.position) (fallThrough { c with lex := { lex with state := .lookupToken } })
    else fallThrough { c with lex := lex }

def inTrue : Cursor → UInt8 → LexerProgram δ Cursor := inKeyword "true" .badTrue .true 3

def inFalse : Cursor → UInt8 → LexerProgram δ Cursor := inKeyword "false" .badFalse .false 4

def inNull : Cursor → UInt8 → LexerProgram δ Cursor := inKeyword "null" .badNull .null 3

variable [DoubleArith δ] (cfg : Config) (chunk : List UInt8)

/-- The `switch (lex.state)` of the loop body. -/
def dispatch (c : Cursor) (b : UInt8) : LexerProgram δ Cursor :=
  match c.lex.state with
  | .lookupToken => lookupToken c b
  | .inString => inString cfg chunk c b
  | .inStringEscape => inStringEscape c b
  | .inStringUnicodeEscape => inStringUnicodeEscape c b
  | .inNumberSign => inNumberSign cfg c b
  | .inNumber => inNumber cfg c b
  | .inNumberFrac => inNumberFrac c b
  | .inNumberExpSign => inNumberExpSign c b
  | .inNumberExp => inNumberExp c b
  | .inBigNumber => inBigNumber chunk c b
  | .inTrue => inTrue c b
  | .inFalse => inFalse c b
  | .inNull => inNull c b

/-- `*data`, where `data` lies in the chunk. -/
def deref (data : ℤ) : Option UInt8 :=
  if 0 ≤ data then chunk[data.toNat]? else none

/-- The `for` loop. `none` is a loop that the fuel did not finish or a read outside the chunk. -/
def loop : ℕ → Cursor → Program (LexerCall δ) (Option (Flow Cursor))
  | 0, _ => .done none
  | fuel + 1, c =>
    if c.data = chunk.length then .done (some (.ok c))
    else match deref chunk c.data with
      | none => .done none
      | some b =>
        (dispatch cfg chunk { c with lex := recordMagic c.lex b } b).bind fun
          | .error r => .done (some (.error r))
          | .ok c => loop fuel { c with data := c.data + 1 }

def flushEnd (c : Cursor) : LexerProgram δ Lexer :=
  match c.lex.state with
  | .inString => flush .tokenc chunk c (fallThrough c.lex)
  | .inBigNumber => flush .tokenbn chunk c (fallThrough c.lex)
  | _ => fallThrough c.lex

/-- The locals at the start. The state `inBigNumber` exists only with `EMBEDJSON_BIGNUM`. -/
def start (lexer : Lexer) : Cursor where
  lex := lexer
  data := 0
  stringChunkBegin :=
    if lexer.state = .inString ∨ lexer.state = .inBigNumber then .buffer 0 else .null

/-- The result code and the value of `*lexer` on return. -/
def embedjsonLexerPush (lexer : Lexer) : Program (LexerCall δ) (ℤ × Lexer) :=
  (loop cfg chunk (2 * chunk.length + 1) (start lexer)).bind fun
    | none => .done (0, lexer)
    | some (.error r) => .done (r, lexer)
    | some (.ok c) => (flushEnd chunk c).bind fun
      | .error r => .done (r, lexer)
      | .ok lex => .done (0, lex)

end Embedjson
