import Embedjson.Common

/-! The data of lexer.h: the lexer, the tokens and the callbacks it makes. -/

namespace Embedjson

inductive LexerState where
  | lookupToken
  | inString
  | inStringEscape
  | inStringUnicodeEscape
  | inNumberSign
  | inNumber
  | inNumberFrac
  | inNumberExpSign
  | inNumberExp
  | inBigNumber
  | inTrue
  | inFalse
  | inNull
  deriving DecidableEq, Repr

inductive Encoding where
  | unknown
  | utf8
  | utf16le
  | utf16be
  | utf32le
  | utf32be
  deriving DecidableEq, Repr

structure Lexer where
  state : LexerState
  offset : ℕ
  unicodeCp : UInt8 × UInt8
  encoding : Encoding
  magicBytesRead : ℕ
  minus : Bool
  expMinus : Bool
  expNotEmpty : Bool
  magic : Vector UInt8 4
  intValue : ℤ
  fracValue : ℕ
  fracPower : ℕ
  expValue : ℕ
  nb : ℕ
  cc : ℕ
  deriving DecidableEq, Repr

def Lexer.zero : Lexer where
  state := .lookupToken
  offset := 0
  unicodeCp := (0, 0)
  encoding := .unknown
  magicBytesRead := 0
  minus := false
  expMinus := false
  expNotEmpty := false
  magic := #v[0, 0, 0, 0]
  intValue := 0
  fracValue := 0
  fracPower := 0
  expValue := 0
  nb := 0
  cc := 0

inductive Tok where
  | openCurlyBracket
  | closeCurlyBracket
  | openBracket
  | closeBracket
  | comma
  | colon
  | true
  | false
  | null
  deriving DecidableEq, Repr

/-- The calls of the lexer, `embedjson_token` and its siblings. -/
inductive LexerCall (δ : Type) where
  | token (token : Tok) (position : Pointer)
  | tokenc (data : Pointer) (bytes : List UInt8)
  | tokeni (value : ℤ) (position : Pointer)
  | tokenf (value : δ) (position : Pointer)
  | tokencBegin (position : Pointer)
  | tokencEnd (position : Pointer)
  | tokenbnBegin (position : Pointer) (initialValue : ℤ)
  | tokenbn (data : Pointer) (bytes : List UInt8)
  | tokenbnEnd (position : Pointer)
  | errorEx (code : ErrorCode) (position : Pointer)
  deriving DecidableEq, Repr

def LexerCall.isError {δ : Type} : LexerCall δ → Bool
  | errorEx _ _ => Bool.true
  | _ => Bool.false

end Embedjson
