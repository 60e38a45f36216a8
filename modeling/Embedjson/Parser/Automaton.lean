import Embedjson.Parser.Stack

/-! The pushdown automaton that the parser implements, with a list for its stack. It is written down
from the grammar: its only parameters are the capacity of the stack and the state after an empty array
inside an object. -/

namespace Embedjson

variable {δ : Type}

structure Conf where
  state : ParserState
  stack : List StackValue
  deriving DecidableEq, Repr

def afterValue : ParserState → Option ParserState
  | .expectValue => some .done
  | .expectObjectValue => some .maybeObjectComma
  | .maybeArrayValue | .expectArrayValue => some .maybeArrayComma
  | _ => none

def afterString : ParserState → Option ParserState
  | .maybeObjectKey | .expectObjectKey => some .expectColon
  | state => afterValue state

/-- The state behind a container, from the stack that it leaves. -/
def resume (underCurly : ParserState) : List StackValue → ParserState
  | [] => .done
  | .curly :: _ => underCurly
  | .square :: _ => .maybeArrayComma

structure Automaton where
  capacity : ℕ
  afterEmptyArray : ParserState

namespace Automaton

variable (A : Automaton) (c : Conf)

abbrev Move (δ : Type) := Option (List (UserCall δ) × Conf)

def primitive (f : UserCall δ) : Move δ :=
  (afterValue c.state).map fun s => ([f], { c with state := s })

def openValue (value : StackValue) (f : UserCall δ) (state : ParserState) : Move δ :=
  if afterValue c.state = none ∨ c.stack.length = A.capacity then none
  else some ([f], ⟨state, value :: c.stack⟩)

def closeValue (f : UserCall δ) (underCurly : ParserState) : Move δ :=
  some ([f], ⟨resume underCurly c.stack.tail, c.stack.tail⟩)

def token : Tok → Move δ
  | .openCurlyBracket => A.openValue c .curly .objectBegin .maybeObjectKey
  | .closeCurlyBracket =>
    match c.state with
    | .maybeObjectKey | .maybeObjectComma => closeValue c .objectEnd .maybeObjectComma
    | _ => none
  | .openBracket => A.openValue c .square .arrayBegin .maybeArrayValue
  | .closeBracket =>
    match c.state with
    | .maybeArrayValue => closeValue c .arrayEnd A.afterEmptyArray
    | .maybeArrayComma => closeValue c .arrayEnd .maybeObjectComma
    | _ => none
  | .comma =>
    match c.state with
    | .maybeObjectComma => some ([], { c with state := .expectObjectKey })
    | .maybeArrayComma => some ([], { c with state := .expectArrayValue })
    | _ => none
  | .colon =>
    match c.state with
    | .expectColon => some ([], { c with state := .expectObjectValue })
    | _ => none
  | .true => primitive c (.bool true)
  | .false => primitive c (.bool false)
  | .null => primitive c .null

/-- The calls of a build without big numbers. -/
def call : LexerCall δ → Move δ
  | .token t _ => A.token c t
  | .tokenc _ bytes => some ([.stringChunk bytes], c)
  | .tokeni v _ => primitive c (.int v)
  | .tokenf v _ => primitive c (.double v)
  | .tokencBegin _ => (afterString c.state).map fun _ => ([.stringBegin], c)
  | .tokencEnd _ => (afterString c.state).map fun s => ([.stringEnd], { c with state := s })
  | _ => none

end Automaton

namespace Conf

def zero : Conf := ⟨.expectValue, []⟩

/-- The top of the stack fits the state. -/
def Wf (c : Conf) : Prop :=
  match c.state with
  | .expectValue | .done => c.stack = []
  | .maybeObjectKey | .expectObjectKey | .expectColon | .maybeObjectComma | .expectObjectValue =>
    ∃ rest, c.stack = .curly :: rest
  | .maybeArrayValue | .expectArrayValue | .maybeArrayComma => ∃ rest, c.stack = .square :: rest
  | .invalid => False

lemma wf_resume {underCurly : ParserState}
    (h : underCurly = .maybeObjectKey ∨ underCurly = .maybeObjectComma)
    (stack : List StackValue) : Wf ⟨resume underCurly stack, stack⟩ := by
  cases stack with
  | nil => rfl
  | cons value rest =>
    cases value with
    | square => exact ⟨rest, rfl⟩
    | curly => rcases h with rfl | rfl <;> exact ⟨rest, rfl⟩

lemma Wf.afterString {c : Conf} {s : ParserState} (hc : c.Wf) (h : afterString c.state = some s) :
    Wf ⟨s, c.stack⟩ := by
  obtain ⟨state, stack⟩ := c
  cases state <;> cases h <;> exact hc

lemma Wf.afterValue {c : Conf} {s : ParserState} (hc : c.Wf) (h : afterValue c.state = some s) :
    Wf ⟨s, c.stack⟩ := by
  obtain ⟨state, stack⟩ := c
  cases state <;> cases h <;> exact hc

end Conf

namespace Automaton

variable {A : Automaton} {c c' : Conf} {us : List (UserCall δ)}

lemma primitive_wf {f : UserCall δ} (hc : c.Wf) (h : primitive c f = some (us, c')) : c'.Wf := by
  obtain ⟨s, hs, heq⟩ := Option.map_eq_some_iff.mp h
  cases heq
  exact hc.afterValue hs

lemma openValue_eq_some {value : StackValue} {f : UserCall δ} {state : ParserState}
    (h : A.openValue c value f state = some (us, c')) :
    (∃ s, afterValue c.state = some s) ∧ c.stack.length ≠ A.capacity ∧ us = [f] ∧
      c' = ⟨state, value :: c.stack⟩ := by
  unfold openValue at h
  split_ifs at h with hn
  cases h
  rw [not_or] at hn
  exact ⟨Option.ne_none_iff_exists'.mp hn.1, hn.2, rfl, rfl⟩

theorem call_wf (hA : A.afterEmptyArray = .maybeObjectKey ∨ A.afterEmptyArray = .maybeObjectComma)
    (hc : c.Wf) {f : LexerCall δ} (h : A.call c f = some (us, c')) : c'.Wf := by
  obtain ⟨state, stack⟩ := c
  cases f with
  | token t _ =>
    cases t with
    | openCurlyBracket =>
      obtain ⟨-, -, -, rfl⟩ := openValue_eq_some h
      exact ⟨_, rfl⟩
    | openBracket =>
      obtain ⟨-, -, -, rfl⟩ := openValue_eq_some h
      exact ⟨_, rfl⟩
    | closeCurlyBracket => cases state <;> cases h <;> exact Conf.wf_resume (.inr rfl) _
    | closeBracket =>
      cases state <;> cases h
      · exact Conf.wf_resume hA _
      · exact Conf.wf_resume (.inr rfl) _
    | comma => cases state <;> cases h <;> exact hc
    | colon => cases state <;> cases h; exact hc
    | true | false | null => exact primitive_wf hc h
  | tokenc _ bytes => cases h; exact hc
  | tokeni v _ | tokenf v _ => exact primitive_wf hc h
  | tokencBegin _ =>
    obtain ⟨s, hs, heq⟩ := Option.map_eq_some_iff.mp h
    cases heq
    exact hc
  | tokencEnd _ =>
    obtain ⟨s, hs, heq⟩ := Option.map_eq_some_iff.mp h
    cases heq
    exact hc.afterString hs
  | _ => cases h

end Automaton

end Embedjson
