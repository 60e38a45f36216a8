import Embedjson.Parser.Refinement

/-! The packed stack is a list of values for every history of pushes and pops, and the sign of `char`
does not matter. -/

namespace Embedjson

open Foundations Foundations.Program

variable {δ : Type} {cfg : Config} {p q : Parser} {value : StackValue}

section Signs

/-- `byte |= mask` for a signed `char`: both operands become an `int`, and the low byte is stored. -/
def orChar (byte mask : UInt8) : UInt8 :=
  (byte.toInt8.toInt32 ||| mask.toUInt32.toInt32).toInt8.toUInt8

def andInt (byte mask : UInt8) : Int32 := byte.toInt8.toInt32 &&& mask.toUInt32.toInt32

def andChar (byte mask : UInt8) : UInt8 := (andInt byte mask).toInt8.toUInt8

lemma mod_eight_lt (n : ℕ) : n % 8 < 8 := Nat.mod_lt n (by decide)

def bitOf (n : ℕ) : Fin 8 := ⟨n % 8, mod_eight_lt n⟩

/-- `stack_push` behind the test of fullness, and `stack_top`, on signed bytes. -/
def pushSigned (p : Parser) (value : StackValue) : Parser :=
  let nbucket := p.stackSize / 8
  let nbit := bitOf p.stackSize
  let byte := p.stack.getD nbucket 0
  { p with
    stack := p.stack.set nbucket (match value with
      | .square => orChar byte (embedjsonOne.get nbit)
      | .curly => andChar byte (embedjsonZero.get nbit))
    stackSize := (p.stackSize + 1) % 2 ^ 64
    broken := p.broken || p.stack.length ≤ nbucket }

def topSigned (p : Parser) : StackValue :=
  let index := decrement p.stackSize
  let nbit := bitOf index
  if andInt (p.stack.getD (index / 8) 0) (embedjsonOne.get nbit) ≠ 0 then .square else .curly

lemma orChar_eq (byte mask : UInt8) : orChar byte mask = byte ||| mask := by
  apply UInt8.toBitVec_inj.mp
  rw [orChar]
  ext i hi
  have h : i < 32 := by omega
  simp [BitVec.getElem_signExtend, hi, h]

lemma andChar_eq (byte mask : UInt8) : andChar byte mask = byte &&& mask := by
  apply UInt8.toBitVec_inj.mp
  rw [andChar, andInt]
  ext i hi
  have h : i < 32 := by omega
  simp [BitVec.getElem_signExtend, hi, h]

lemma andInt_toBitVec (byte mask : UInt8) :
    (andInt byte mask).toBitVec = (byte &&& mask).toBitVec.setWidth 32 := by
  rw [andInt]
  ext i hi
  by_cases h : i < 8
  · simp [BitVec.getElem_signExtend, h, BitVec.getElem_setWidth, BitVec.getLsbD_eq_getElem]
  · have hmask : mask.toBitVec.getLsbD i = false := BitVec.getLsbD_of_ge _ _ (by omega)
    simp [BitVec.getElem_signExtend, BitVec.getElem_setWidth, hmask]

lemma andInt_eq_zero_iff (byte mask : UInt8) : andInt byte mask = 0 ↔ byte &&& mask = 0 := by
  rw [← Int32.toBitVec_inj, ← UInt8.toBitVec_inj, andInt_toBitVec]
  constructor
  · intro h
    simpa using congrArg (BitVec.setWidth 8) h
  · intro h
    rw [h]
    rfl

lemma pushSigned_eq (p : Parser) (value : StackValue) : pushSigned p value = pushBit p value := by
  cases value <;> simp only [pushSigned, pushBit, orChar_eq, andChar_eq] <;> rfl

lemma topSigned_eq (p : Parser) : topSigned p = stackTop p := by
  simp only [topSigned, stackTop, ne_eq, andInt_eq_zero_iff]
  rfl

end Signs

/-- The stack has `capacity` bytes, few enough for `stack_size` to count their bits. -/
structure Backed (cfg : Config) (p : Parser) : Prop where
  length : p.stack.length = capacity cfg p
  countable : 8 * capacity cfg p < 2 ^ 64

inductive StackOp where
  | push (value : StackValue)
  | pop

def StackOp.apply : StackOp → List StackValue → List StackValue
  | push value, values => value :: values
  | pop, values => values.tail

/-- A push with room for a bit that returns zero and does not grow the stack, or a pop of a stack that
is not empty. -/
inductive Operates (δ : Type) (cfg : Config) : Parser → StackOp → Parser → Prop
  | push {p q : Parser} {value : StackValue} (hroom : p.values.length < 8 * capacity cfg p)
      (h : (stackPush cfg p value : ParserProgram δ) = .done (0, q)) : Operates δ cfg p (.push value) q
  | pop {p : Parser} (h : p.values ≠ []) : Operates δ cfg p .pop (stackPop p)

inductive OperatesAll (δ : Type) (cfg : Config) : Parser → List StackOp → Parser → Prop
  | nil (p : Parser) : OperatesAll δ cfg p [] p
  | cons {p q r : Parser} {op : StackOp} {ops : List StackOp} (h : Operates δ cfg p op q)
      (hops : OperatesAll δ cfg q ops r) : OperatesAll δ cfg p (op :: ops) r

section Operations

lemma stackPush_done (h : (stackPush cfg p value : ParserProgram δ) = .done (0, q)) :
    q = pushBit p value := by
  rw [stackPush] at h
  split_ifs at h
  · cases h
  · cases h
  · cases h
    rfl

lemma Backed.pushBit (h : Backed cfg p) (hroom : p.values.length < 8 * capacity cfg p)
    (value : StackValue) :
    Backed cfg (pushBit p value) ∧ (pushBit p value).values = value :: p.values := by
  have hlength := h.length
  have hcountable := h.countable
  rw [length_values] at hroom
  refine ⟨⟨?_, h.countable⟩, values_pushBit (by omega) (by omega) value⟩
  rw [pushBit_stack, BitStack.length_write]
  exact h.length

lemma Backed.stackPop (h : Backed cfg p) : Backed cfg (stackPop p) := ⟨h.length, h.countable⟩

lemma Operates.refines {op : StackOp} (hop : Operates δ cfg p op q) (h : Backed cfg p) :
    Backed cfg q ∧ q.values = op.apply p.values := by
  cases hop with
  | push hroom hpush =>
    rw [stackPush_done hpush]
    exact h.pushBit hroom _
  | pop hne =>
    obtain ⟨value, rest, hvalues⟩ := List.exists_cons_of_ne_nil hne
    refine ⟨h.stackPop, ?_⟩
    rw [values_stackPop hvalues, hvalues]
    rfl

lemma OperatesAll.refines {ops : List StackOp} (hops : OperatesAll δ cfg p ops q)
    (h : Backed cfg p) :
    Backed cfg q ∧ q.values = ops.foldl (fun values op => op.apply values) p.values := by
  induction hops with
  | nil p => exact ⟨h, rfl⟩
  | cons hop hops ih =>
    obtain ⟨hq, hvalues⟩ := hop.refines h
    rw [List.foldl_cons, ← hvalues]
    exact ih hq

/-- From any bytes, pushes and pops are those of the list, and the top is its first element. -/
theorem packedStack_refines (h : Backed cfg p) :
    (∀ value q, p.values.length < 8 * capacity cfg p →
      (stackPush cfg p value : ParserProgram δ) = .done (0, q) →
        q.stackSize = p.stackSize + 1 ∧ stackTop q = value ∧ q.values = value :: p.values ∧
          (stackPop q).values = p.values) ∧
    (∀ ops q, OperatesAll δ cfg p ops q →
      q.values = ops.foldl (fun values op => op.apply values) p.values ∧
        ∀ top rest, q.values = top :: rest → stackTop q = top) ∧
    (∀ p value, pushSigned p value = pushBit p value) ∧ ∀ p, topSigned p = stackTop p := by
  refine ⟨fun value q hroom hpush => ?_, fun ops q hops => ?_, pushSigned_eq, topSigned_eq⟩
  · obtain ⟨-, hvalues⟩ := h.pushBit hroom value
    rw [stackPush_done hpush]
    refine ⟨?_, stackTop_values hvalues, hvalues, values_stackPop hvalues⟩
    rw [stackSize_values hvalues, length_values]
  · obtain ⟨-, hvalues⟩ := hops.refines h
    exact ⟨hvalues, fun top rest htop => stackTop_values htop⟩

/-- Seven values in front of the end of a byte, and other bits behind them. -/
def staleStack : Parser :=
  { Parser.zero .default with stack := List.replicate 16 0xa5, stackSize := 7 }

theorem packedStack_refines_stale :
    ∃ q, OperatesAll ℚ .default staleStack
        [.push .square, .push .curly, .push .square, .pop, .push .curly] q ∧
      q.values = .curly :: .curly :: .square :: staleStack.values ∧ stackTop q = .curly := by
  have hback : Backed .default staleStack := ⟨rfl, by decide⟩
  have hops : OperatesAll ℚ .default staleStack
      [.push .square, .push .curly, .push .square, .pop, .push .curly] _ :=
    .cons (.push (by decide) rfl) (.cons (.push (by decide) rfl) (.cons (.push (by decide) rfl)
      (.cons (.pop (by decide)) (.cons (.push (by decide) rfl) (.nil _)))))
  obtain ⟨hvalues, htop⟩ := (packedStack_refines hback).2.1 _ _ hops
  exact ⟨_, hops, hvalues, htop _ _ hvalues⟩

end Operations

end Embedjson
