import Embedjson.Grammar.Completeness
import Embedjson.Parser.Documents

/-! The transitions diagram in doc/syntax-parser-fsm.dot, and how far the parser follows it. -/

namespace Embedjson

open Foundations Foundations.Program

variable {δ : Type} {cfg : Config}

inductive Symbol where
  | openCurly
  | closeCurly
  | openSquare
  | closeSquare
  | comma
  | colon
  | string
  | primitive
  deriving DecidableEq, Repr

inductive StackEffect where
  | keep
  | push (value : StackValue)
  | pop (value : StackValue) (under : Option StackValue)
  deriving DecidableEq, Repr

structure Edge where
  source : ParserState
  symbol : Symbol
  effect : StackEffect
  target : ParserState
  deriving DecidableEq, Repr

/-- The transitions in the order of the file. -/
def diagram : List Edge := [
  ⟨.expectValue, .primitive, .keep, .done⟩,
  ⟨.expectValue, .openCurly, .push .curly, .maybeObjectKey⟩,
  ⟨.maybeObjectKey, .closeCurly, .pop .curly none, .done⟩,
  ⟨.maybeObjectKey, .closeCurly, .pop .curly (some .curly), .maybeObjectComma⟩,
  ⟨.maybeObjectKey, .closeCurly, .pop .curly (some .square), .maybeArrayComma⟩,
  ⟨.maybeObjectKey, .string, .keep, .expectColon⟩,
  ⟨.expectColon, .colon, .keep, .expectObjectValue⟩,
  ⟨.expectObjectValue, .primitive, .keep, .maybeObjectComma⟩,
  ⟨.expectObjectValue, .openCurly, .push .curly, .maybeObjectKey⟩,
  ⟨.expectObjectValue, .openSquare, .push .square, .maybeArrayValue⟩,
  ⟨.maybeObjectComma, .comma, .keep, .expectObjectKey⟩,
  ⟨.maybeObjectComma, .closeCurly, .pop .curly none, .done⟩,
  ⟨.maybeObjectComma, .closeCurly, .pop .curly (some .curly), .maybeObjectComma⟩,
  ⟨.maybeObjectComma, .closeCurly, .pop .curly (some .square), .maybeArrayComma⟩,
  ⟨.expectObjectKey, .string, .keep, .expectColon⟩,
  ⟨.expectValue, .openSquare, .push .square, .maybeArrayValue⟩,
  ⟨.maybeArrayValue, .closeSquare, .pop .square none, .done⟩,
  ⟨.maybeArrayValue, .closeSquare, .pop .square (some .square), .maybeArrayComma⟩,
  ⟨.maybeArrayValue, .closeSquare, .pop .square (some .curly), .maybeObjectComma⟩,
  ⟨.maybeArrayValue, .openSquare, .push .square, .maybeArrayValue⟩,
  ⟨.maybeArrayValue, .openCurly, .push .curly, .maybeObjectKey⟩,
  ⟨.maybeArrayValue, .primitive, .keep, .maybeArrayComma⟩,
  ⟨.maybeArrayComma, .comma, .keep, .expectArrayValue⟩,
  ⟨.maybeArrayComma, .closeSquare, .pop .square none, .done⟩,
  ⟨.maybeArrayComma, .closeSquare, .pop .square (some .square), .maybeArrayComma⟩,
  ⟨.maybeArrayComma, .closeSquare, .pop .square (some .curly), .maybeObjectComma⟩,
  ⟨.expectArrayValue, .primitive, .keep, .maybeArrayComma⟩,
  ⟨.expectArrayValue, .openSquare, .push .square, .maybeArrayValue⟩,
  ⟨.expectArrayValue, .openCurly, .push .curly, .maybeObjectKey⟩]

/-- A string is a primitive as well. -/
def Symbol.reads : Symbol → Lexeme δ → Bool
  | .openCurly, .tok .openCurlyBracket => true
  | .closeCurly, .tok .closeCurlyBracket => true
  | .openSquare, .tok .openBracket => true
  | .closeSquare, .tok .closeBracket => true
  | .comma, .tok .comma => true
  | .colon, .tok .colon => true
  | .string, .string _ => true
  | .primitive, .string _ | .primitive, .int _ | .primitive, .double _ => true
  | .primitive, .tok .true | .primitive, .tok .false | .primitive, .tok .null => true
  | _, _ => false

def StackEffect.apply : StackEffect → List StackValue → Option (List StackValue)
  | .keep, stack => some stack
  | .push value, stack => some (value :: stack)
  | .pop value under, top :: rest => if top = value ∧ rest.head? = under then some rest else none
  | .pop _ _, [] => none

def Edge.follow (e : Edge) (c : Conf) (x : Lexeme δ) : Option Conf :=
  if c.state = e.source ∧ e.symbol.reads x then
    (e.effect.apply c.stack).map fun stack => ⟨e.target, stack⟩
  else none

/-- In the source an empty array inside an object leads to `maybeObjectKey`. -/
def Edge.implemented (e : Edge) : Edge :=
  if e.source = .maybeArrayValue ∧ e.effect = .pop .square (some .curly) then
    { e with target := .maybeObjectKey }
  else e

def Dialect.edges : Dialect → List Edge
  | documented => diagram
  | implemented => diagram.map Edge.implemented

/-- The tokens lead from the entry of a diagram to the configuration, and the stack stays within its
limit. -/
inductive Walks (edges : List Edge) (limit : ℕ) : List (Lexeme δ) → Conf → Prop
  | entry : Walks edges limit [] .zero
  | follow {e : Edge} {ts : List (Lexeme δ)} {c c' : Conf} {x : Lexeme δ}
      (h : Walks edges limit ts c) (he : e ∈ edges) (hx : e.follow c x = some c')
      (hroom : c'.stack.length ≤ limit) : Walks edges limit (ts ++ [x]) c'

section Edges

variable (d : Dialect) {e : Edge} {s s' : ParserState}

lemma resume_head (underCurly : ParserState) (stack : List StackValue) :
    resume underCurly stack.head?.toList = resume underCurly stack := by
  cases stack with
  | nil => rfl
  | cons value rest => cases value <;> rfl

lemma value_edge (h : afterValue s = some s') : ⟨s, .primitive, .keep, s'⟩ ∈ d.edges := by
  cases s <;> cases h <;> cases d <;> decide

lemma key_edge (h : s = .maybeObjectKey ∨ s = .expectObjectKey) :
    ⟨s, .string, .keep, .expectColon⟩ ∈ d.edges := by
  rcases h with rfl | rfl <;> cases d <;> decide

lemma open_edge (h : afterValue s = some s') :
    ⟨s, .openCurly, .push .curly, .maybeObjectKey⟩ ∈ d.edges ∧
      ⟨s, .openSquare, .push .square, .maybeArrayValue⟩ ∈ d.edges := by
  cases s <;> cases h <;> cases d <;> decide

lemma close_curly_edge (under : Option StackValue) (h : s = .maybeObjectKey ∨ s = .maybeObjectComma) :
    ⟨s, .closeCurly, .pop .curly under, resume .maybeObjectComma under.toList⟩ ∈ d.edges := by
  rcases h with rfl | rfl <;> rcases under with _ | _ | _ <;> cases d <;> decide

lemma close_square_edge (under : Option StackValue) :
    ⟨.maybeArrayValue, .closeSquare, .pop .square under, resume d.afterEmptyArray under.toList⟩ ∈
        d.edges ∧
      ⟨.maybeArrayComma, .closeSquare, .pop .square under, resume .maybeObjectComma under.toList⟩ ∈
        d.edges := by
  rcases under with _ | _ | _ <;> cases d <;> decide

lemma separator_edge : ⟨.maybeObjectComma, .comma, .keep, .expectObjectKey⟩ ∈ d.edges ∧
    ⟨.maybeArrayComma, .comma, .keep, .expectArrayValue⟩ ∈ d.edges ∧
    ⟨.expectColon, .colon, .keep, .expectObjectValue⟩ ∈ d.edges := by
  cases d <;> decide

def Edge.fits (d : Dialect) (e : Edge) : Bool :=
  match e.symbol, e.effect with
  | .primitive, .keep => afterValue e.source = some e.target
  | .string, .keep =>
    (e.source = .maybeObjectKey ∨ e.source = .expectObjectKey) ∧ e.target = .expectColon
  | .colon, .keep => e.source = .expectColon ∧ e.target = .expectObjectValue
  | .comma, .keep => e.source = .maybeObjectComma ∧ e.target = .expectObjectKey ∨
      e.source = .maybeArrayComma ∧ e.target = .expectArrayValue
  | .openCurly, .push .curly => afterValue e.source ≠ none ∧ e.target = .maybeObjectKey
  | .openSquare, .push .square => afterValue e.source ≠ none ∧ e.target = .maybeArrayValue
  | .closeCurly, .pop .curly under => (e.source = .maybeObjectKey ∨ e.source = .maybeObjectComma) ∧
      e.target = resume .maybeObjectComma under.toList
  | .closeSquare, .pop .square under =>
    e.source = .maybeArrayValue ∧ e.target = resume d.afterEmptyArray under.toList ∨
      e.source = .maybeArrayComma ∧ e.target = resume .maybeObjectComma under.toList
  | _, _ => false

lemma edge_fits (he : e ∈ d.edges) : e.fits d = true := by
  have hall : (d.edges.all (Edge.fits d)) = true := by cases d <;> decide
  exact List.all_eq_true.mp hall e he

end Edges

section Steps

variable {d : Dialect} {limit : ℕ} {c c' : Conf} {x : Lexeme δ} {us : List (UserCall δ)}

lemma follow_keep {source target : ParserState} {symbol : Symbol} {stack : List StackValue}
    (h : symbol.reads x = true) :
    (Edge.mk source symbol .keep target).follow ⟨source, stack⟩ x = some ⟨target, stack⟩ :=
  if_pos ⟨rfl, h⟩

lemma follow_push {source target : ParserState} {symbol : Symbol} {stack : List StackValue}
    {value : StackValue} (h : symbol.reads x = true) :
    (Edge.mk source symbol (.push value) target).follow ⟨source, stack⟩ x =
      some ⟨target, value :: stack⟩ :=
  if_pos ⟨rfl, h⟩

lemma follow_pop {source underCurly : ParserState} {symbol : Symbol} {stack : List StackValue}
    {value : StackValue} (h : symbol.reads x = true) :
    (Edge.mk source symbol (.pop value stack.head?) (resume underCurly stack.head?.toList)).follow
      ⟨source, value :: stack⟩ x = some ⟨resume underCurly stack, stack⟩ := by
  rw [Edge.follow, if_pos ⟨rfl, h⟩, StackEffect.apply, if_pos ⟨rfl, rfl⟩, resume_head]
  rfl

lemma follow_of_lexeme (hc : c.Wf) (hroom : c.stack.length ≤ limit)
    (h : (d.automaton limit).lexeme c x = some (us, c')) :
    (∃ e ∈ d.edges, e.follow c x = some c') ∧ c'.stack.length ≤ limit := by
  obtain ⟨state, stack⟩ := c
  have hvalue {u : UserCall δ} (hx : Symbol.primitive.reads x = true)
      (h : Automaton.primitive ⟨state, stack⟩ u = some (us, c')) :
      (∃ e ∈ d.edges, e.follow ⟨state, stack⟩ x = some c') ∧ c'.stack.length ≤ limit := by
    obtain ⟨s, hs, heq⟩ := Option.map_eq_some_iff.mp h
    cases heq
    exact ⟨⟨_, value_edge d hs, follow_keep hx⟩, hroom⟩
  cases x with
  | int v => exact hvalue rfl h
  | double v => exact hvalue rfl h
  | string text =>
    obtain ⟨s, hs, heq⟩ := Option.map_eq_some_iff.mp h
    cases heq
    cases state with
    | maybeObjectKey =>
      cases hs
      exact ⟨⟨_, key_edge d (.inl rfl), follow_keep rfl⟩, hroom⟩
    | expectObjectKey =>
      cases hs
      exact ⟨⟨_, key_edge d (.inr rfl), follow_keep rfl⟩, hroom⟩
    | expectValue | expectObjectValue | maybeArrayValue | expectArrayValue =>
      cases hs
      exact ⟨⟨_, value_edge d rfl, follow_keep rfl⟩, hroom⟩
    | _ => cases hs
  | tok t =>
    have hopen {value : StackValue} {u : UserCall δ} {s : ParserState} {symbol : Symbol}
        (hx : symbol.reads (.tok t : Lexeme δ) = true)
        (hedge : ∀ s', afterValue state = some s' → ⟨state, symbol, .push value, s⟩ ∈ d.edges)
        (h : (d.automaton limit).openValue ⟨state, stack⟩ value u s = some (us, c')) :
        (∃ e ∈ d.edges, e.follow ⟨state, stack⟩ (.tok t : Lexeme δ) = some c') ∧
          c'.stack.length ≤ limit := by
      obtain ⟨⟨s', hs'⟩, hfull, -, rfl⟩ := Automaton.openValue_eq_some h
      exact ⟨⟨_, hedge s' hs', follow_push hx⟩, Nat.lt_of_le_of_ne hroom hfull⟩
    have hclose {value : StackValue} {u : UserCall δ} {underCurly : ParserState} {symbol : Symbol}
        (hx : symbol.reads (.tok t : Lexeme δ) = true)
        (hedge : ∀ under : Option StackValue,
          ⟨state, symbol, .pop value under, resume underCurly under.toList⟩ ∈ d.edges)
        (hstack : ∃ rest, stack = value :: rest)
        (h : Automaton.closeValue ⟨state, stack⟩ u underCurly = some (us, c')) :
        (∃ e ∈ d.edges, e.follow ⟨state, stack⟩ (.tok t : Lexeme δ) = some c') ∧
          c'.stack.length ≤ limit := by
      obtain ⟨rest, rfl⟩ := hstack
      cases h
      exact ⟨⟨_, hedge rest.head?, follow_pop hx⟩, (Nat.le_succ _).trans hroom⟩
    cases t with
    | true => exact hvalue rfl h
    | false => exact hvalue rfl h
    | null => exact hvalue rfl h
    | openCurlyBracket => exact hopen rfl (fun s' hs' => (open_edge d hs').1) h
    | openBracket => exact hopen rfl (fun s' hs' => (open_edge d hs').2) h
    | closeCurlyBracket =>
      cases state with
      | maybeObjectKey => exact hclose rfl (fun under => close_curly_edge d under (.inl rfl)) hc h
      | maybeObjectComma => exact hclose rfl (fun under => close_curly_edge d under (.inr rfl)) hc h
      | _ => cases h
    | closeBracket =>
      cases state with
      | maybeArrayValue => exact hclose rfl (fun under => (close_square_edge d under).1) hc h
      | maybeArrayComma => exact hclose rfl (fun under => (close_square_edge d under).2) hc h
      | _ => cases h
    | comma =>
      cases state with
      | maybeObjectComma =>
        cases h
        exact ⟨⟨_, (separator_edge d).1, follow_keep rfl⟩, hroom⟩
      | maybeArrayComma =>
        cases h
        exact ⟨⟨_, (separator_edge d).2.1, follow_keep rfl⟩, hroom⟩
      | _ => cases h
    | colon =>
      cases state with
      | expectColon =>
        cases h
        exact ⟨⟨_, (separator_edge d).2.2, follow_keep rfl⟩, hroom⟩
      | _ => cases h

def Symbol.token : Symbol → Option Tok
  | .openCurly => some .openCurlyBracket
  | .closeCurly => some .closeCurlyBracket
  | .openSquare => some .openBracket
  | .closeSquare => some .closeBracket
  | .comma => some .comma
  | .colon => some .colon
  | .string | .primitive => none

lemma eq_tok_of_reads {symbol : Symbol} {t : Tok} (ht : symbol.token = some t)
    (hx : symbol.reads x = true) : x = .tok t := by
  cases x with
  | tok u => cases u <;> cases symbol <;> cases hx <;> cases ht <;> rfl
  | _ => cases symbol <;> cases hx <;> cases ht

lemma lexeme_of_primitive {A : Automaton} (hx : Symbol.primitive.reads x = true) {s : ParserState}
    (hs : afterValue c.state = some s) :
    ∃ us : List (UserCall δ), A.lexeme c x = some (us, ⟨s, c.stack⟩) := by
  have hprimitive (u : UserCall δ) : Automaton.primitive c u = some ([u], ⟨s, c.stack⟩) := by
    rw [Automaton.primitive, hs]
    rfl
  cases x with
  | int v => exact ⟨_, hprimitive _⟩
  | double v => exact ⟨_, hprimitive _⟩
  | string text =>
    have hstring : afterString c.state = some s := by
      obtain ⟨state, stack⟩ := c
      cases state <;> cases hs <;> rfl
    exact ⟨_, by rw [Automaton.lexeme, hstring]; rfl⟩
  | tok t =>
    cases t with
    | true | false | null => exact ⟨_, hprimitive _⟩
    | _ => cases hx

lemma lexeme_of_follow {e : Edge} (he : e ∈ d.edges) (h : e.follow c x = some c')
    (hroom : c'.stack.length ≤ limit) :
    ∃ us : List (UserCall δ), (d.automaton limit).lexeme c x = some (us, c') := by
  have hfits := edge_fits d he
  obtain ⟨source, symbol, effect, target⟩ := e
  obtain ⟨state, stack⟩ := c
  rw [Edge.follow] at h
  split_ifs at h with hcond
  obtain ⟨rfl, hx⟩ := hcond
  obtain ⟨stack', hstack, rfl⟩ := Option.map_eq_some_iff.mp h
  have hpop {value : StackValue} {under : Option StackValue}
      (h : (StackEffect.pop value under).apply stack = some stack') :
      stack = value :: stack' ∧ stack'.head? = under := by
    cases stack with
    | nil => cases h
    | cons top rest =>
      rw [StackEffect.apply] at h
      split_ifs at h with hcond
      cases h
      exact ⟨congrArg (· :: stack') hcond.1, hcond.2⟩
  have hopen {value : StackValue} (u : UserCall δ) (s : ParserState) (h : afterValue state ≠ none)
      (hroom : (value :: stack).length ≤ limit) :
      (d.automaton limit).openValue ⟨state, stack⟩ value u s = some ([u], ⟨s, value :: stack⟩) :=
    if_neg (not_or.mpr ⟨h, (Nat.lt_of_succ_le hroom).ne⟩)
  cases symbol with
  | primitive =>
    cases effect with
    | keep =>
      cases hstack
      exact lexeme_of_primitive hx (of_decide_eq_true hfits)
    | _ => cases hfits
  | string =>
    cases effect with
    | keep =>
      cases hstack
      obtain ⟨hstate, rfl⟩ := of_decide_eq_true hfits
      cases x with
      | string text => rcases hstate with rfl | rfl <;> exact ⟨_, rfl⟩
      | _ => cases hx
    | _ => cases hfits
  | colon =>
    obtain rfl := eq_tok_of_reads rfl hx
    cases effect with
    | keep =>
      cases hstack
      obtain ⟨rfl, rfl⟩ := of_decide_eq_true hfits
      exact ⟨_, rfl⟩
    | _ => cases hfits
  | comma =>
    obtain rfl := eq_tok_of_reads rfl hx
    cases effect with
    | keep =>
      cases hstack
      obtain ⟨rfl, rfl⟩ | ⟨rfl, rfl⟩ := of_decide_eq_true hfits
      · exact ⟨_, rfl⟩
      · exact ⟨_, rfl⟩
    | _ => cases hfits
  | openCurly =>
    obtain rfl := eq_tok_of_reads rfl hx
    cases effect with
    | push value =>
      cases hstack
      cases value with
      | curly =>
        obtain ⟨hvalue, rfl⟩ := of_decide_eq_true hfits
        exact ⟨_, hopen _ _ hvalue hroom⟩
      | square => cases hfits
    | _ => cases hfits
  | openSquare =>
    obtain rfl := eq_tok_of_reads rfl hx
    cases effect with
    | push value =>
      cases hstack
      cases value with
      | square =>
        obtain ⟨hvalue, rfl⟩ := of_decide_eq_true hfits
        exact ⟨_, hopen _ _ hvalue hroom⟩
      | curly => cases hfits
    | _ => cases hfits
  | closeCurly =>
    obtain rfl := eq_tok_of_reads rfl hx
    cases effect with
    | pop value under =>
      obtain ⟨rfl, rfl⟩ := hpop hstack
      cases value with
      | curly =>
        obtain ⟨hstate, rfl⟩ := of_decide_eq_true hfits
        rw [resume_head]
        rcases hstate with rfl | rfl <;> exact ⟨_, rfl⟩
      | square => cases hfits
    | _ => cases hfits
  | closeSquare =>
    obtain rfl := eq_tok_of_reads rfl hx
    cases effect with
    | pop value under =>
      obtain ⟨rfl, rfl⟩ := hpop hstack
      cases value with
      | square =>
        obtain ⟨rfl, rfl⟩ | ⟨rfl, rfl⟩ := of_decide_eq_true hfits
        · exact ⟨_, by rw [resume_head]; rfl⟩
        · exact ⟨_, by rw [resume_head]; rfl⟩
      | curly => cases hfits
    | _ => cases hfits

end Steps

section Walks

variable {d : Dialect} {limit : ℕ} {c c' : Conf} {x : Lexeme δ} {ts : List (Lexeme δ)}

lemma lexeme_wf {A : Automaton} {us : List (UserCall δ)}
    (hA : A.afterEmptyArray = .maybeObjectKey ∨ A.afterEmptyArray = .maybeObjectComma) (hc : c.Wf)
    (h : A.lexeme c x = some (us, c')) : c'.Wf := by
  cases x with
  | tok t => exact Automaton.call_wf hA hc (f := .token t .null) h
  | int v => exact Automaton.primitive_wf hc h
  | double v => exact Automaton.primitive_wf hc h
  | string text =>
    obtain ⟨s, hs, heq⟩ := Option.map_eq_some_iff.mp h
    cases heq
    exact hc.afterString hs

lemma afterEmptyArray_eq (d : Dialect) :
    d.afterEmptyArray = .maybeObjectKey ∨ d.afterEmptyArray = .maybeObjectComma := by
  cases d
  · exact .inr rfl
  · exact .inl rfl

lemma Walks.wf (h : Walks d.edges limit ts c) : c.Wf ∧ c.stack.length ≤ limit := by
  induction h with
  | entry => exact ⟨rfl, Nat.zero_le _⟩
  | follow h he hx hroom ih =>
    obtain ⟨us, hlexeme⟩ := lexeme_of_follow he hx hroom
    exact ⟨lexeme_wf (afterEmptyArray_eq d) ih.1 hlexeme, hroom⟩

theorem walks_iff : Walks d.edges limit ts c ↔
    ∃ us : List (UserCall δ), (d.automaton limit).machine.run .zero ts = (us, .ok c) := by
  constructor
  · intro h
    induction h with
    | entry => exact ⟨[], rfl⟩
    | follow h he hx hroom ih =>
      obtain ⟨us, hrun⟩ := ih
      obtain ⟨vs, hlexeme⟩ := lexeme_of_follow he hx hroom
      have hstep := Automaton.machine_step_ok.mpr hlexeme
      exact ⟨us ++ vs, by rw [Transducer.run_append_ok _ hrun, Transducer.run_singleton, hstep]⟩
  · rintro ⟨us, hrun⟩
    induction ts using List.reverseRecOn generalizing us c with
    | nil =>
      cases hrun
      exact .entry
    | append_singleton ts x ih =>
      obtain ⟨vs, ws, c₀, hfirst, hlast, -⟩ := Transducer.run_append_eq_ok _ hrun
      have h := ih vs hfirst
      rw [Transducer.run_singleton] at hlast
      obtain ⟨⟨e, he, hx⟩, hroom⟩ :=
        follow_of_lexeme h.wf.1 h.wf.2 (Automaton.machine_step_ok.mp hlast)
      exact h.follow he hx hroom

lemma Walks.unique (h : Walks d.edges limit ts c) (h' : Walks d.edges limit ts c') : c = c' := by
  obtain ⟨us, hrun⟩ := walks_iff.mp h
  obtain ⟨us', hrun'⟩ := walks_iff.mp h'
  cases hrun.symm.trans hrun'
  rfl

lemma walks_concat : Walks d.edges limit (ts ++ [x]) c' ↔ ∃ c, Walks d.edges limit ts c ∧
    ∃ us : List (UserCall δ), (d.automaton limit).lexeme c x = some (us, c') := by
  constructor
  · intro h
    obtain ⟨us, hrun⟩ := walks_iff.mp h
    obtain ⟨vs, ws, c, hfirst, hlast, -⟩ := Transducer.run_append_eq_ok _ hrun
    rw [Transducer.run_singleton] at hlast
    exact ⟨c, walks_iff.mpr ⟨vs, hfirst⟩, ws, Automaton.machine_step_ok.mp hlast⟩
  · rintro ⟨c, h, us, hx⟩
    obtain ⟨⟨e, he, hfollow⟩, hroom⟩ := follow_of_lexeme h.wf.1 h.wf.2 hx
    exact h.follow he hfollow hroom

/-- The only transition into `maybeArrayValue` reads an opening bracket. -/
lemma opened (h : Walks d.edges limit (ts ++ [x]) c') (hs : c'.state = .maybeArrayValue) :
    ∃ c, x = .tok .openBracket ∧ Walks d.edges limit ts c ∧ c'.stack = .square :: c.stack ∧
      afterValue c.state ≠ none ∧ c.stack.length < limit := by
  obtain ⟨c, hc, us, hx⟩ := walks_concat.mp h
  obtain ⟨⟨⟨source, symbol, effect, target⟩, he, hfollow⟩, -⟩ := follow_of_lexeme hc.wf.1 hc.wf.2 hx
  have hall : (d.edges.all fun e => e.target ≠ .maybeArrayValue ∨ e.symbol = .openSquare) = true := by
    cases d <;> decide
  rw [Edge.follow] at hfollow
  split_ifs at hfollow with hcond
  obtain ⟨stack, -, rfl⟩ := Option.map_eq_some_iff.mp hfollow
  obtain rfl : symbol = .openSquare :=
    (of_decide_eq_true (List.all_eq_true.mp hall _ he)).resolve_left (not_not_intro hs)
  obtain rfl := eq_tok_of_reads rfl hcond.2
  obtain ⟨⟨s, hvalue⟩, hfull, -, heq⟩ := Automaton.openValue_eq_some hx
  exact ⟨c, rfl, hc, congrArg Conf.stack heq, by simp [hvalue], Nat.lt_of_le_of_ne hc.wf.2 hfull⟩

lemma inside_object (h : Walks d.edges limit ts c) (hs : c.state = .maybeArrayValue)
    (hcurly : c.stack.tail.head? = some .curly) :
    ∃ front stack, ts = front ++ [.tok .openBracket] ∧
      Walks d.edges limit front ⟨.expectObjectValue, stack⟩ ∧ stack.length < limit := by
  obtain rfl | ⟨front, x, rfl⟩ := ts.eq_nil_or_concat'
  · obtain ⟨us, hrun⟩ := walks_iff.mp h
    cases hrun
    cases hs
  · obtain ⟨⟨state, stack⟩, rfl, hfront, hstack, hvalue, hroom⟩ := opened h hs
    rw [hstack, List.tail_cons] at hcurly
    have hc := hfront.wf.1
    have hstate : state = .expectObjectValue := by
      cases state with
      | expectObjectValue => rfl
      | expectValue =>
        cases (show stack = [] from hc)
        cases hcurly
      | maybeArrayValue | expectArrayValue =>
        obtain ⟨rest, hrest⟩ := hc
        cases hrest
        cases hcurly
      | _ => exact absurd rfl hvalue
    exact ⟨front, stack, rfl, hstate ▸ hfront, hroom⟩

lemma lexeme_agrees (h : ¬(x = .tok .closeBracket ∧ c.state = .maybeArrayValue ∧
      c.stack.tail.head? = some .curly)) :
    ((Dialect.implemented.automaton limit).lexeme c x : Automaton.Move δ) =
      (Dialect.documented.automaton limit).lexeme c x := by
  obtain ⟨state, stack⟩ := c
  cases x with
  | tok t =>
    cases t with
    | closeBracket =>
      cases state with
      | maybeArrayValue =>
        rcases stack with _ | ⟨top, _ | ⟨_ | _, rest⟩⟩
        · rfl
        · rfl
        · exact absurd ⟨rfl, rfl, rfl⟩ h
        · rfl
      | _ => rfl
    | _ => rfl
  | _ => rfl

end Walks

section Runs

variable {c c' : Conf} {ts : List (Lexeme δ)}

/-- Calls for the tokens, with any positions, lead the parser to the configuration. -/
def Behaves (cfg : Config) (ts : List (Lexeme δ)) (c : Conf) : Prop :=
  ∃ calls us p, calls.map LexerCall.forget = ts.flatMap Lexeme.calls ∧
    (parserMachine cfg).run (.zero cfg) calls = (us, .ok p) ∧ Represents cfg p c

lemma forget_calls (x : Lexeme δ) : x.calls.map LexerCall.forget = x.calls := by
  cases x with
  | string text => simp [Lexeme.calls, LexerCall.forget]
  | _ => rfl

variable (hstatic : cfg.dynamicStack = false)

include hstatic

theorem behaves_iff_walks : Behaves cfg ts c ↔
    Walks Dialect.implemented.edges cfg.stackLimit ts c := by
  rw [walks_iff]
  have hfollows {calls : List (LexerCall δ)}
      (hcalls : calls.map LexerCall.forget = ts.flatMap Lexeme.calls) :=
    run_lexemes_follows cfg (represents_zero cfg hstatic) rfl hstatic hcalls
  constructor
  · rintro ⟨calls, us, p, hcalls, hrun, hr⟩
    have h := hfollows hcalls
    rcases hmachine : cfg.automaton.machine.run .zero ts with ⟨vs, e | c₁⟩
    · rw [hmachine] at h
      obtain ⟨_, code, herror⟩ := h
      cases hrun.symm.trans herror
    · rw [hmachine] at h
      obtain ⟨p', hrun', hr', -⟩ := h
      cases hrun.symm.trans hrun'
      obtain rfl : c = c₁ := by
        obtain ⟨state, stack⟩ := c
        obtain ⟨state₁, stack₁⟩ := c₁
        rw [Conf.mk.injEq]
        exact ⟨hr.state.symm.trans hr'.state, hr.stack.symm.trans hr'.stack⟩
      exact ⟨vs, hmachine⟩
  · rintro ⟨us, hmachine⟩
    have hcalls : (ts.flatMap Lexeme.calls).map LexerCall.forget = ts.flatMap Lexeme.calls := by
      rw [List.map_flatMap]
      exact List.flatMap_congr fun x _ => forget_calls x
    have h := hfollows hcalls
    rw [show cfg.automaton.machine.run .zero ts = (us, .ok c) from hmachine] at h
    obtain ⟨p, hrun, hr, -⟩ := h
    exact ⟨_, us, p, hcalls, hrun, hr⟩

/-- The parser is the diagram with another target for one transition. It follows the diagram up to the
first empty array that ends inside an object. -/
theorem follows_diagram_iff :
    (∀ c, Behaves cfg ts c ↔ Walks Dialect.implemented.edges cfg.stackLimit ts c) ∧
    ((∀ front, front <+: ts → ∀ c, Behaves cfg front c ↔ Walks diagram cfg.stackLimit front c) ↔
      ¬∃ front stack, front ++ [.tok .openBracket, .tok .closeBracket] <+: ts ∧
        Walks diagram cfg.stackLimit front ⟨.expectObjectValue, stack⟩ ∧
          stack.length < cfg.stackLimit) := by
  refine ⟨fun c => behaves_iff_walks hstatic, ?_⟩
  simp only [behaves_iff_walks hstatic]
  constructor
  · rintro hagree ⟨front, stack, hprefix, hwalks, hroom⟩
    have hfront : front <+: ts := (List.prefix_append _ _).trans hprefix
    obtain ⟨rest, rfl⟩ : ∃ rest, stack = .curly :: rest := hwalks.wf (d := .documented).1
    have hcloses {d : Dialect}
        (h : Walks d.edges cfg.stackLimit front ⟨.expectObjectValue, .curly :: rest⟩) :
        Walks d.edges cfg.stackLimit (front ++ [.tok .openBracket, .tok .closeBracket])
          ⟨d.afterEmptyArray, .curly :: rest⟩ := by
      have hopen : Walks d.edges cfg.stackLimit (front ++ [.tok .openBracket])
          ⟨.maybeArrayValue, .square :: .curly :: rest⟩ :=
        walks_concat.mpr ⟨_, h, [.arrayBegin], if_neg (not_or.mpr ⟨Option.some_ne_none _, hroom.ne⟩)⟩
      have hclose : Walks d.edges cfg.stackLimit
          (front ++ [.tok .openBracket] ++ [.tok .closeBracket]) ⟨d.afterEmptyArray, .curly :: rest⟩ :=
        walks_concat.mpr ⟨_, hopen, [.arrayEnd], rfl⟩
      rwa [List.append_assoc] at hclose
    have hdocumented := hcloses (d := .documented) hwalks
    have himplemented := hcloses (d := .implemented) ((hagree front hfront _).mpr hwalks)
    cases ((hagree _ hprefix _).mpr hdocumented).unique himplemented
  · intro hno front hfront
    change ∀ c, _ ↔ Walks Dialect.documented.edges cfg.stackLimit front c
    induction front using List.reverseRecOn with
    | nil =>
      intro c
      rw [walks_iff, walks_iff]
      exact Iff.rfl
    | append_singleton front x ih =>
      have hstep (c : Conf) := ih ((List.prefix_append _ _).trans hfront) c
      have hsame {c : Conf} (h : Walks Dialect.documented.edges cfg.stackLimit front c) :
          ((Dialect.implemented.automaton cfg.stackLimit).lexeme c x : Automaton.Move δ) =
            (Dialect.documented.automaton cfg.stackLimit).lexeme c x := by
        refine lexeme_agrees ?_
        rintro ⟨rfl, hs, hcurly⟩
        obtain ⟨front', stack, rfl, hwalks, hroom⟩ := inside_object h hs hcurly
        refine hno ⟨front', stack, ?_, hwalks, hroom⟩
        rwa [List.append_assoc] at hfront
      intro c
      rw [walks_concat, walks_concat]
      constructor
      · rintro ⟨c₀, h, us, hx⟩
        have h' := (hstep c₀).mp h
        exact ⟨c₀, h', us, hsame h' ▸ hx⟩
      · rintro ⟨c₀, h, us, hx⟩
        exact ⟨c₀, (hstep c₀).mpr h, us, (hsame h).symm ▸ hx⟩

end Runs

/-- The tokens of `{"a":[],`. -/
theorem follows_diagram_iff_comma : ¬∀ front, front <+: [.tok .openCurlyBracket, .string [[97]],
      .tok .colon, .tok .openBracket, .tok .closeBracket, .tok .comma] → ∀ c,
    Behaves .default front c ↔
      Walks diagram Config.default.stackLimit (front : List (Lexeme ℚ)) c := by
  rw [(follows_diagram_iff rfl).2, not_not]
  have hwalks : Walks Dialect.documented.edges Config.default.stackLimit
      ([.tok .openCurlyBracket, .string [[97]], .tok .colon] : List (Lexeme ℚ))
      ⟨.expectObjectValue, [.curly]⟩ := walks_iff.mpr ⟨_, rfl⟩
  exact ⟨_, [.curly], ⟨[.tok .comma], rfl⟩, hwalks, by decide⟩

end Embedjson
