import Embedjson.Foundations.Matching
import Embedjson.Lexer.Chunking
import Embedjson.Parser.ReturnCodes

namespace Embedjson

open Foundations Foundations.Program

variable {δ : Type}

def UserCall.forget : UserCall δ → UserCall δ
  | .error code _ => .error code .null
  | f => f

def UserCall.Nonempty : UserCall δ → Prop
  | .stringChunk bytes | .bignumChunk bytes => bytes ≠ []
  | _ => True

def UserCall.Alike (f g : UserCall δ) : Prop := f.forget = g.forget ∧ f.Nonempty

lemma UserCall.Alike.isError {f g : UserCall δ} (h : f.Alike g) : f.isError = g.isError := by
  have key (u : UserCall δ) : u.forget.isError = u.isError := by cases u <;> rfl
  rw [← key f, h.1, key g]

def Parser.setLexer (p : Parser) (lex : Lexer) : Parser := { p with lexer := lex }

section Alike

def SameFlow (lex : Lexer) (m k : ParserProgram δ) : Prop :=
  Matches UserCall.Alike (fun a b => b = (a.1, a.2.setLexer lex)) m k

variable {cfg : Config} {p : Parser} {lex : Lexer}

lemma sameFlow_succeed (p : Parser) :
    SameFlow lex (succeed p : ParserProgram δ) (succeed (p.setLexer lex)) := rfl

lemma sameFlow_returnCall {f g : UserCall δ} (h : f.Alike g) (p : Parser) :
    SameFlow lex (returnCall f p) (returnCall g (p.setLexer lex)) :=
  ⟨h, fun _ => rfl⟩

lemma sameFlow_returnErrorEx (p : Parser) (code : ErrorCode) (position position' : Pointer) :
    SameFlow lex (returnErrorEx p code position : ParserProgram δ)
      (returnErrorEx (p.setLexer lex) code position') :=
  sameFlow_returnCall ⟨rfl, by trivial⟩ p

lemma SameFlow.returnIf {k m : ParserProgram δ} (h : SameFlow lex k m) {f : UserCall δ}
    (hf : f.Nonempty) : SameFlow lex (p.returnIf f k) ((p.setLexer lex).returnIf f m) :=
  ⟨⟨rfl, hf⟩, fun _ => Matches.ite Iff.rfl rfl h⟩

lemma SameFlow.ite {q : Prop} [Decidable q] {k k' m m' : ParserProgram δ} (h : SameFlow lex k m)
    (h' : SameFlow lex k' m') : SameFlow lex (if q then k else k') (if q then m else m') :=
  Matches.ite Iff.rfl h h'

lemma SameFlow.andThen {k m : ParserProgram δ} {n n' : ℤ × Parser → ParserProgram δ}
    (h : SameFlow lex k m) (hn : ∀ a, SameFlow lex (n a) (n' (a.1, a.2.setLexer lex))) :
    SameFlow lex (k.bind fun a => if a.1 ≠ 0 then .done a else n a)
      (m.bind fun a => if a.1 ≠ 0 then .done a else n' a) := by
  refine Matches.bind h fun a b hab => ?_
  subst hab
  exact Matches.ite Iff.rfl rfl (hn a)

lemma stackPush_sameFlow (value : StackValue) :
    SameFlow lex (stackPush cfg p value : ParserProgram δ)
      (stackPush cfg (p.setLexer lex) value) :=
  .ite (.ite (.returnIf (sameFlow_succeed _) (by trivial))
    (sameFlow_returnCall ⟨rfl, by trivial⟩ p)) (sameFlow_succeed _)

lemma openContainer_sameFlow (value : StackValue) {f : UserCall δ} (hf : f.Nonempty)
    (state : ParserState) :
    SameFlow lex (openContainer cfg p value f state)
      (openContainer cfg (p.setLexer lex) value f state) :=
  (stackPush_sameFlow value).andThen fun _ => .returnIf (sameFlow_succeed _) hf

lemma stateAfterClose_setLexer (underCurly : ParserState) :
    stateAfterClose underCurly (p.setLexer lex) =
      (stateAfterClose underCurly p).setLexer lex := by
  have he : stackEmpty (p.setLexer lex) = stackEmpty p := rfl
  have ht : stackTop (p.setLexer lex) = stackTop p := rfl
  unfold stateAfterClose
  rw [he, ht]
  split_ifs <;> rfl

lemma closeContainer_sameFlow (value : StackValue) {f : UserCall δ} (hf : f.Nonempty)
    (underCurly : ParserState) (position position' : Pointer) :
    SameFlow lex (closeContainer cfg p value f underCurly position)
      (closeContainer cfg (p.setLexer lex) value f underCurly position') := by
  have h : SameFlow lex (succeed (stateAfterClose underCurly (stackPop p)) : ParserProgram δ)
      (succeed (stateAfterClose underCurly (stackPop (p.setLexer lex)))) := by
    rw [show stackPop (p.setLexer lex) = (stackPop p).setLexer lex from rfl,
      stateAfterClose_setLexer]
    exact sameFlow_succeed _
  exact .ite (sameFlow_returnErrorEx p _ _ _) (.returnIf h hf)

lemma checkState_sameFlow {k m : ParserProgram δ} (h : SameFlow lex k m)
    (position position' : Pointer) :
    SameFlow lex (checkState cfg p position k) (checkState cfg (p.setLexer lex) position' m) :=
  .ite (sameFlow_returnErrorEx p _ _ _) h

lemma valueToken_sameFlow {k m : ParserProgram δ} (h : SameFlow lex k m) (token : Tok)
    (position position' : Pointer) (state : ParserState) :
    SameFlow lex (valueToken cfg p token position state k)
      (valueToken cfg (p.setLexer lex) token position' state m) := by
  cases token with
  | openCurlyBracket | openBracket => exact openContainer_sameFlow _ (by trivial) _
  | closeBracket => exact h
  | closeCurlyBracket | comma | colon => exact sameFlow_returnErrorEx p _ _ _
  | true | false | null => exact .returnIf (sameFlow_succeed _) (by trivial)

lemma embedjsonToken_sameFlow (token : Tok) (position position' : Pointer) :
    SameFlow lex (embedjsonToken cfg p token position : ParserProgram δ)
      (embedjsonToken cfg (p.setLexer lex) token position') := by
  unfold embedjsonToken
  rw [show (p.setLexer lex).state = p.state from rfl]
  cases p.state with
  | expectValue | expectObjectValue | expectArrayValue =>
    exact valueToken_sameFlow (sameFlow_returnErrorEx p _ _ _) _ _ _ _
  | maybeObjectKey =>
    exact .ite (closeContainer_sameFlow _ (by trivial) _ _ _) (sameFlow_returnErrorEx p _ _ _)
  | expectObjectKey | done => exact sameFlow_returnErrorEx p _ _ _
  | expectColon => exact .ite (sameFlow_returnErrorEx p _ _ _) (sameFlow_succeed _)
  | maybeObjectComma | maybeArrayComma =>
    exact .ite (sameFlow_succeed _)
      (.ite (closeContainer_sameFlow _ (by trivial) _ _ _) (sameFlow_returnErrorEx p _ _ _))
  | maybeArrayValue =>
    exact valueToken_sameFlow (closeContainer_sameFlow _ (by trivial) _ _ _) _ _ _ _
  | invalid => exact .ite (sameFlow_returnErrorEx p _ _ _) (sameFlow_succeed p)

lemma numberToken_sameFlow {f : UserCall δ} (hf : f.Nonempty) (position position' : Pointer) :
    SameFlow lex (numberToken cfg p f position)
      (numberToken cfg (p.setLexer lex) f position') := by
  unfold numberToken
  rw [show (p.setLexer lex).state = p.state from rfl]
  cases p.state with
  | expectValue | expectObjectValue | maybeArrayValue | expectArrayValue =>
    exact sameFlow_returnCall ⟨rfl, hf⟩ _
  | invalid => exact .ite (sameFlow_returnErrorEx p _ _ _) (sameFlow_succeed p)
  | _ => exact sameFlow_returnErrorEx p _ _ _

lemma embedjsonTokencBegin_sameFlow (position position' : Pointer) :
    SameFlow lex (embedjsonTokencBegin cfg p position : ParserProgram δ)
      (embedjsonTokencBegin cfg (p.setLexer lex) position') := by
  unfold embedjsonTokencBegin
  rw [show (p.setLexer lex).state = p.state from rfl]
  cases p.state with
  | expectValue | maybeObjectKey | expectObjectKey | expectObjectValue | maybeArrayValue
  | expectArrayValue => exact sameFlow_returnCall ⟨rfl, by trivial⟩ p
  | invalid => exact .ite (sameFlow_returnErrorEx p _ _ _) (sameFlow_succeed p)
  | _ => exact sameFlow_returnErrorEx p _ _ _

lemma lookupNextState_setLexer (table : ParserState → Option ParserState) :
    lookupNextState table (p.setLexer lex) = (lookupNextState table p).setLexer lex := by
  unfold lookupNextState
  rw [show (p.setLexer lex).state = p.state from rfl]
  cases table p.state <;> rfl

lemma endToken_sameFlow (table : ParserState → Option ParserState) {f : UserCall δ}
    (hf : f.Nonempty) (position position' : Pointer) :
    SameFlow lex (endToken cfg table f p position)
      (endToken cfg table f (p.setLexer lex) position') := by
  unfold endToken
  rw [lookupNextState_setLexer]
  exact checkState_sameFlow (checkState_sameFlow (sameFlow_returnCall ⟨rfl, hf⟩ _) _ _) _ _

variable (cfg) in
lemma onLexerCall_sameFlow {f g : LexerCall δ} (h : f.forget = g.forget) (hf : f.Nonempty)
    (p : Parser) (lex : Lexer) :
    SameFlow lex (onLexerCall cfg f p) (onLexerCall cfg g (p.setLexer lex)) := by
  cases f <;> cases g <;> simp only [LexerCall.forget, reduceCtorEq] at h <;> cases h
  case token => exact embedjsonToken_sameFlow _ _ _
  case tokenc | tokenbn =>
    refine checkState_sameFlow (sameFlow_returnCall ⟨rfl, ?_⟩ p) _ _
    exact hf
  case tokeni | tokenf | tokenbnBegin => exact numberToken_sameFlow (by trivial) _ _
  case tokencBegin => exact embedjsonTokencBegin_sameFlow _ _
  case tokencEnd | tokenbnEnd => exact endToken_sameFlow _ (by trivial) _ _
  case errorEx => exact sameFlow_returnErrorEx p _ _ _

end Alike

end Embedjson
