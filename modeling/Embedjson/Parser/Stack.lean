import Embedjson.Foundations.Program
import Embedjson.Lexer.State

/-! The parser of parser.h, its callbacks, and the bit stack of parser.c. -/

namespace Embedjson

open Foundations Foundations.Program

variable {δ : Type}

inductive ParserState where
  | expectValue
  | maybeObjectKey
  | expectObjectKey
  | expectColon
  | maybeObjectComma
  | expectObjectValue
  | maybeArrayValue
  | expectArrayValue
  | maybeArrayComma
  | done
  | invalid
  deriving DecidableEq, Repr

inductive StackValue where
  | curly
  | square
  deriving DecidableEq, Repr

structure Parser where
  lexer : Lexer
  state : ParserState
  stackSize : ℕ
  stack : List UInt8
  stackCapacity : ℕ
  /-- A ghost, set by an access outside the stack or the tables `next_state` and by a pop of the
  empty stack. -/
  broken : Bool
  deriving DecidableEq, Repr

def Parser.zero (cfg : Config) : Parser where
  lexer := .zero
  state := .expectValue
  stackSize := 0
  stack := if cfg.dynamicStack then [] else List.replicate cfg.staticStackSize 0
  stackCapacity := 0
  broken := false

inductive UserCall (δ : Type) where
  | null
  | bool (value : Bool)
  | int (value : ℤ)
  | double (value : δ)
  | stringBegin
  | stringChunk (bytes : List UInt8)
  | stringEnd
  | objectBegin
  | objectEnd
  | arrayBegin
  | arrayEnd
  | bignumBegin (initialValue : ℤ)
  | bignumChunk (bytes : List UInt8)
  | bignumEnd
  | stackOverflow
  | error (code : ErrorCode) (position : Pointer)
  deriving DecidableEq, Repr

def UserCall.isError : UserCall δ → Bool
  | error _ _ => true
  | _ => false

/-- A C function of the parser: the result code and the parser it leaves behind. -/
abbrev ParserProgram (δ : Type) := Program (UserCall δ) (ℤ × Parser)

def succeed (p : Parser) : ParserProgram δ := .done (0, p)

/-- `return f`, where the parser already has its new value. -/
def returnCall (f : UserCall δ) (p : Parser) : ParserProgram δ := .call f fun r => .done (r, p)

/-- `EMBEDJSON_RETURN_IF(f)` followed by `k`. -/
def Parser.returnIf (p : Parser) (f : UserCall δ) (k : ParserProgram δ) : ParserProgram δ :=
  .call f fun err => if err ≠ 0 then .done (err, p) else k

def embedjsonZero : Vector UInt8 8 := #v[0xFE, 0xFD, 0xFB, 0xF7, 0xEF, 0xDF, 0xBF, 0x7F]

def embedjsonOne : Vector UInt8 8 := #v[0x01, 0x02, 0x04, 0x08, 0x10, 0x20, 0x40, 0x80]

def stackEmpty (p : Parser) : Bool := p.stackSize = 0

/-- `EMBEDJSON_STACK_CAPACITY`. -/
def capacity (cfg : Config) (p : Parser) : ℕ :=
  if cfg.dynamicStack then p.stackCapacity else cfg.staticStackSize

/-- `max_size` is an `unsigned char`. -/
def stackFull (cfg : Config) (p : Parser) : Bool := p.stackSize = 8 * capacity cfg p % 2 ^ 8

/-- The part of `stack_push` after the test of fullness. -/
def pushBit (p : Parser) (value : StackValue) : Parser :=
  let nbucket := p.stackSize / 8
  let nbit : Fin 8 := ⟨p.stackSize % 8, Nat.mod_lt _ (by decide)⟩
  let byte := p.stack.getD nbucket 0
  { p with
    stack := p.stack.set nbucket (match value with
      | .square => byte ||| embedjsonOne[nbit]
      | .curly => byte &&& embedjsonZero[nbit])
    stackSize := (p.stackSize + 1) % 2 ^ 64
    broken := p.broken || p.stack.length ≤ nbucket }

/-- The effect of a successful `embedjson_stack_overflow`. -/
def grow (cfg : Config) (p : Parser) : Parser :=
  { p with
    stack := p.stack ++ cfg.growth p.stackCapacity
    stackCapacity := p.stackCapacity + (cfg.growth p.stackCapacity).length }

def stackPush (cfg : Config) (p : Parser) (value : StackValue) : ParserProgram δ :=
  if stackFull cfg p then
    if cfg.dynamicStack then p.returnIf .stackOverflow (succeed (pushBit (grow cfg p) value))
    else returnCall (.error .stackOverflow .null) p
  else succeed (pushBit p value)

def decrement (n : ℕ) : ℕ := if n = 0 then 2 ^ 64 - 1 else n - 1

def stackPop (p : Parser) : Parser :=
  { p with
    stackSize := decrement p.stackSize
    broken := p.broken || p.stackSize = 0 }

def stackTop (p : Parser) : StackValue :=
  let index := decrement p.stackSize
  let nbit : Fin 8 := ⟨index % 8, Nat.mod_lt _ (by decide)⟩
  if p.stack.getD (index / 8) 0 &&& embedjsonOne[nbit] ≠ 0 then .square else .curly

/-- The ghost after a call of `stack_top`. -/
def readTop (p : Parser) : Parser :=
  { p with
    broken := p.broken || p.stackSize = 0 ||
      p.stack.length ≤ decrement p.stackSize / 8 }

end Embedjson
