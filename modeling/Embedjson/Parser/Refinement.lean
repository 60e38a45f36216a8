import Embedjson.Foundations.BitStack
import Embedjson.Parser.Automaton
import Embedjson.Parser.Token

/-! With a static stack the parser refines the automaton: its packed stack represents the list, and
every function makes the callbacks of the automaton's move. -/

namespace Embedjson

open Foundations Foundations.Program

variable {δ : Type}

def StackValue.ofBit (bit : Bool) : StackValue := if bit then .square else .curly

def StackValue.toBit (value : StackValue) : Bool := value = .square

@[simp] lemma StackValue.ofBit_toBit (value : StackValue) : ofBit value.toBit = value := by
  cases value <;> rfl

/-- The stack as a list, its top first. -/
def Parser.values (p : Parser) : List StackValue :=
  (BitStack.contents p.stack p.stackSize).map StackValue.ofBit

/-- What `stack_full` compares with: the number of bits modulo the width of `unsigned char`. -/
def Config.stackLimit (cfg : Config) : ℕ := 8 * cfg.staticStackSize % 2 ^ 8

lemma Config.stackLimit_lt (cfg : Config) : cfg.stackLimit < 2 ^ 8 := Nat.mod_lt _ (by decide)

lemma Config.stackLimit_le (cfg : Config) : cfg.stackLimit ≤ 8 * cfg.staticStackSize :=
  Nat.mod_le _ _

def Config.automaton (cfg : Config) : Automaton := ⟨cfg.stackLimit, .maybeObjectKey⟩

structure Represents (cfg : Config) (p : Parser) (c : Conf) : Prop where
  state : p.state = c.state
  stack : p.values = c.stack
  length : p.stack.length = cfg.staticStackSize
  size : p.stackSize ≤ cfg.stackLimit
  sound : p.broken = false

structure Harmless (cfg : Config) (p : Parser) : Prop where
  valid : p.state ≠ .invalid
  size : p.stackSize ≤ cfg.stackLimit
  sound : p.broken = false

lemma embedjsonOne_eq_mask (k : Fin 8) : embedjsonOne[k] = BitStack.mask k := by
  revert k
  decide

lemma embedjsonZero_eq_mask (k : Fin 8) : embedjsonZero[k] = ~~~BitStack.mask k := by
  revert k
  decide

lemma pushBit_stack (p : Parser) (value : StackValue) :
    (pushBit p value).stack = BitStack.write p.stack p.stackSize value.toBit := by
  have hone := embedjsonOne_eq_mask (BitStack.place p.stackSize)
  have hzero := embedjsonZero_eq_mask (BitStack.place p.stackSize)
  cases value with
  | curly => exact congrArg (fun m => p.stack.set _ (_ &&& m)) hzero
  | square => exact congrArg (fun m => p.stack.set _ (_ ||| m)) hone

section Values

variable {p : Parser} {value : StackValue} {rest : List StackValue}

lemma length_values (p : Parser) : p.values.length = p.stackSize := by
  rw [Parser.values, List.length_map, BitStack.length_contents]

lemma values_pushBit (hbucket : p.stackSize / 8 < p.stack.length) (hsize : p.stackSize + 1 < 2 ^ 64)
    (value : StackValue) : (pushBit p value).values = value :: p.values := by
  have hnext : (pushBit p value).stackSize = p.stackSize + 1 := Nat.mod_eq_of_lt hsize
  rw [Parser.values, hnext, pushBit_stack, BitStack.contents_push hbucket, List.map_cons,
    StackValue.ofBit_toBit, Parser.values]

lemma stackSize_values (h : p.values = value :: rest) : p.stackSize = rest.length + 1 := by
  rw [← length_values, h, List.length_cons]

lemma decrement_values (h : p.values = value :: rest) : decrement p.stackSize = rest.length := by
  rw [stackSize_values h, decrement, if_neg (Nat.succ_ne_zero _), Nat.add_sub_cancel]

lemma contents_values (h : p.values = value :: rest) :
    StackValue.ofBit (BitStack.bit p.stack rest.length) = value ∧
      (BitStack.contents p.stack rest.length).map StackValue.ofBit = rest := by
  have hsize := stackSize_values h
  rw [Parser.values, hsize, BitStack.contents, List.map_cons, List.cons.injEq] at h
  exact h

lemma values_stackPop (h : p.values = value :: rest) : (stackPop p).values = rest := by
  have hnext : (stackPop p).stackSize = rest.length := decrement_values h
  rw [Parser.values, hnext]
  exact (contents_values h).2

lemma stackTop_values (h : p.values = value :: rest) : stackTop p = value := by
  rw [← (contents_values h).1, stackTop]
  simp only [decrement_values h]
  have hone := embedjsonOne_eq_mask (BitStack.place rest.length)
  rw [show embedjsonOne[(⟨rest.length % 8, _⟩ : Fin 8)] = _ from hone]
  simp [StackValue.ofBit, BitStack.bit]

end Values

variable {cfg : Config} {p : Parser} {c : Conf}

namespace Represents

lemma size_eq (h : Represents cfg p c) : p.stackSize = c.stack.length := by
  rw [← h.stack, length_values]

lemma size_lt (h : Represents cfg p c) : p.stackSize < 2 ^ 8 :=
  h.size.trans_lt cfg.stackLimit_lt

lemma harmless (h : Represents cfg p c) (hc : c.Wf) : Harmless cfg p := by
  refine ⟨fun hs => ?_, h.size, h.sound⟩
  rw [h.state] at hs
  simp [Conf.Wf, hs] at hc

lemma setState (h : Represents cfg p c) (s : ParserState) :
    Represents cfg { p with state := s } { c with state := s } :=
  ⟨rfl, h.stack, h.length, h.size, h.sound⟩

lemma pushBit (h : Represents cfg p c) (hfull : c.stack.length ≠ cfg.stackLimit)
    (value : StackValue) :
    Represents cfg (pushBit p value) { c with stack := value :: c.stack } := by
  have hsize := h.size
  have hlt := h.size_lt
  have hlimit := cfg.stackLimit_le
  have hroom : p.stackSize < cfg.stackLimit := lt_of_le_of_ne hsize (h.size_eq ▸ hfull)
  have hbucket : p.stackSize / 8 < p.stack.length := by
    rw [h.length]
    omega
  have hnext : (Embedjson.pushBit p value).stackSize = p.stackSize + 1 :=
    Nat.mod_eq_of_lt (by omega)
  refine ⟨h.state, ?_, ?_, by omega, ?_⟩
  · rw [values_pushBit hbucket (by omega), h.stack]
  · rw [pushBit_stack, BitStack.length_write, h.length]
  · change (p.broken || decide (p.stack.length ≤ p.stackSize / 8)) = false
    rw [h.sound, Bool.false_or, decide_eq_false (by omega)]

lemma decrement_size (h : Represents cfg p c) {value : StackValue} {rest : List StackValue}
    (hc : c.stack = value :: rest) : decrement p.stackSize = rest.length :=
  decrement_values (h.stack.trans hc)

lemma stackPop (h : Represents cfg p c) {value : StackValue} {rest : List StackValue}
    (hc : c.stack = value :: rest) :
    Represents cfg (stackPop p) { c with stack := rest } := by
  have hsize := h.size_eq
  rw [hc, List.length_cons] at hsize
  have hle := h.size
  have hnext : (Embedjson.stackPop p).stackSize = rest.length := h.decrement_size hc
  refine ⟨h.state, values_stackPop (h.stack.trans hc), h.length, by omega, ?_⟩
  · change (p.broken || decide (p.stackSize = 0)) = false
    rw [h.sound, Bool.false_or, decide_eq_false (by omega)]

lemma stackEmpty (h : Represents cfg p c) : stackEmpty p = decide (c.stack = []) := by
  rw [Embedjson.stackEmpty, h.size_eq]
  simp [List.length_eq_zero_iff]

lemma stackTop (h : Represents cfg p c) {value : StackValue} {rest : List StackValue}
    (hc : c.stack = value :: rest) : stackTop p = value :=
  stackTop_values (h.stack.trans hc)

lemma readTop (h : Represents cfg p c) (hc : c.stack ≠ []) : Represents cfg (readTop p) c := by
  obtain ⟨value, rest, hrest⟩ := List.exists_cons_of_ne_nil hc
  have hsize := h.size_eq
  rw [hrest, List.length_cons] at hsize
  have hle := h.size
  have hlimit := cfg.stackLimit_le
  refine ⟨h.state, h.stack, h.length, h.size, ?_⟩
  change (p.broken || decide (p.stackSize = 0) ||
    decide (p.stack.length ≤ decrement p.stackSize / 8)) = false
  rw [h.sound, h.decrement_size hrest, h.length, decide_eq_false (by omega), decide_eq_false (by omega)]
  rfl

lemma stateAfterClose (h : Represents cfg p c) (underCurly : ParserState) :
    Represents cfg (stateAfterClose underCurly p) { c with state := resume underCurly c.stack } := by
  unfold Embedjson.stateAfterClose
  cases hs : c.stack with
  | nil =>
    rw [if_pos (by simp [h.stackEmpty, hs])]
    simpa only [resume, hs] using h.setState .done
  | cons value rest =>
    have hread := h.readTop (by simp [hs])
    rw [if_neg (by simp [h.stackEmpty, hs]), h.stackTop hs]
    cases value with
    | curly =>
      rw [if_pos rfl]
      simpa only [resume, hs] using hread.setState underCurly
    | square =>
      rw [if_neg (by decide)]
      simpa only [resume, hs] using hread.setState .maybeArrayComma

end Represents

variable (cfg) in
lemma represents_zero (hstatic : cfg.dynamicStack = false) :
    Represents cfg (.zero cfg) .zero := by
  refine ⟨rfl, rfl, ?_, Nat.zero_le _, rfl⟩
  simp [Parser.zero, hstatic]

end Embedjson
