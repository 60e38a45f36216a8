import Embedjson.Lexer.ReturnCodes
import Embedjson.Parser.Push

namespace Embedjson

open Foundations Foundations.Program

variable {δ : Type} {cfg : Config} {p : Parser}

def RelaysCode (m : ParserProgram δ) : Prop := FailsFast Prod.fst m

lemma relaysCode_succeed (p : Parser) : RelaysCode (succeed p : ParserProgram δ) := rfl

lemma relaysCode_returnCall (f : UserCall δ) (p : Parser) : RelaysCode (returnCall f p) :=
  ⟨fun r _ => ⟨(r, p), rfl, rfl⟩, rfl⟩

lemma RelaysCode.returnIf {k : ParserProgram δ} (hk : RelaysCode k) (f : UserCall δ) :
    RelaysCode (p.returnIf f k) :=
  ⟨fun r hr => ⟨(r, p), if_pos hr, rfl⟩, hk⟩

lemma RelaysCode.ite {q : Prop} [Decidable q] {k m : ParserProgram δ} (hk : RelaysCode k)
    (hm : RelaysCode m) : RelaysCode (if q then k else m) := by
  by_cases h : q
  · rwa [if_pos h]
  · rwa [if_neg h]

lemma RelaysCode.andThen {m : ParserProgram δ} {k : ℤ × Parser → ParserProgram δ}
    (hm : RelaysCode m) (hk : ∀ a, RelaysCode (k a)) :
    RelaysCode (m.bind fun a => if a.1 ≠ 0 then .done a else k a) := by
  refine FailsFast.bind hm (fun a ha => ?_) fun a ha => ⟨a, if_pos ha, rfl⟩
  rw [if_neg (not_not_intro ha)]
  exact hk a

lemma stackPush_relaysCode (value : StackValue) :
    RelaysCode (stackPush cfg p value : ParserProgram δ) :=
  .ite (.ite ((relaysCode_succeed _).returnIf _) (relaysCode_returnCall _ _)) (relaysCode_succeed _)

lemma openContainer_relaysCode (value : StackValue) (f : UserCall δ) (state : ParserState) :
    RelaysCode (openContainer cfg p value f state) :=
  (stackPush_relaysCode value).andThen fun _ => (relaysCode_succeed _).returnIf f

lemma closeContainer_relaysCode (value : StackValue) (f : UserCall δ) (underCurly : ParserState)
    (position : Pointer) : RelaysCode (closeContainer cfg p value f underCurly position) :=
  .ite (relaysCode_returnCall _ _) ((relaysCode_succeed _).returnIf f)

lemma checkState_relaysCode (position : Pointer) {k : ParserProgram δ} (hk : RelaysCode k) :
    RelaysCode (checkState cfg p position k) :=
  .ite (relaysCode_returnCall _ _) hk

lemma valueToken_relaysCode (token : Tok) (position : Pointer) (state : ParserState)
    {k : ParserProgram δ} (hk : RelaysCode k) :
    RelaysCode (valueToken cfg p token position state k) := by
  cases token with
  | openCurlyBracket | openBracket => exact openContainer_relaysCode _ _ _
  | closeBracket => exact hk
  | closeCurlyBracket | comma | colon => exact relaysCode_returnCall _ _
  | true | false | null => exact (relaysCode_succeed _).returnIf _

lemma embedjsonToken_relaysCode (token : Tok) (position : Pointer) :
    RelaysCode (embedjsonToken cfg p token position : ParserProgram δ) := by
  unfold embedjsonToken
  cases p.state with
  | expectValue | expectObjectValue | expectArrayValue =>
    exact valueToken_relaysCode _ _ _ (relaysCode_returnCall _ _)
  | maybeObjectKey => exact .ite (closeContainer_relaysCode _ _ _ _) (relaysCode_returnCall _ _)
  | expectObjectKey | done => exact relaysCode_returnCall _ _
  | expectColon => exact .ite (relaysCode_returnCall _ _) (relaysCode_succeed _)
  | maybeObjectComma | maybeArrayComma =>
    exact .ite (relaysCode_succeed _)
      (.ite (closeContainer_relaysCode _ _ _ _) (relaysCode_returnCall _ _))
  | maybeArrayValue => exact valueToken_relaysCode _ _ _ (closeContainer_relaysCode _ _ _ _)
  | invalid => exact .ite (relaysCode_returnCall _ _) (relaysCode_succeed _)

lemma numberToken_relaysCode (f : UserCall δ) (position : Pointer) :
    RelaysCode (numberToken cfg p f position) := by
  unfold numberToken
  cases p.state with
  | invalid => exact .ite (relaysCode_returnCall _ _) (relaysCode_succeed _)
  | _ => exact relaysCode_returnCall _ _

lemma embedjsonTokencBegin_relaysCode (position : Pointer) :
    RelaysCode (embedjsonTokencBegin cfg p position : ParserProgram δ) := by
  unfold embedjsonTokencBegin
  cases p.state with
  | invalid => exact .ite (relaysCode_returnCall _ _) (relaysCode_succeed _)
  | _ => exact relaysCode_returnCall _ _

lemma endToken_relaysCode (table : ParserState → Option ParserState) (f : UserCall δ)
    (position : Pointer) : RelaysCode (endToken cfg table f p position) :=
  checkState_relaysCode _ (checkState_relaysCode _ (relaysCode_returnCall _ _))

lemma onLexerCall_relaysCode (call : LexerCall δ) (p : Parser) :
    RelaysCode (onLexerCall cfg call p) := by
  cases call with
  | token token position => exact embedjsonToken_relaysCode token position
  | tokenc data bytes | tokenbn data bytes =>
    exact checkState_relaysCode _ (relaysCode_returnCall _ _)
  | tokeni value position | tokenf value position | tokenbnBegin position value =>
    exact numberToken_relaysCode _ _
  | tokencBegin position => exact embedjsonTokencBegin_relaysCode position
  | tokencEnd position | tokenbnEnd position => exact endToken_relaysCode _ _ _
  | errorEx code position => exact relaysCode_returnCall _ _

variable [DoubleArith δ]

theorem embedjsonPush_relaysCode (p : Parser) (chunk : List UInt8) :
    RelaysCode (embedjsonPush cfg p chunk : ParserProgram δ) :=
  FailsFast.bind
    ((embedjsonLexerPush_failsFast p.lexer).interpret onLexerCall_relaysCode p)
    (fun _ ha => ha) fun _ _ => ⟨_, rfl, rfl⟩

theorem embedjsonFinalize_relaysCode (p : Parser) :
    RelaysCode (embedjsonFinalize cfg p : ParserProgram δ) :=
  RelaysCode.andThen
    ((embedjsonLexerFinalize_failsFast p.lexer).interpret onLexerCall_relaysCode p)
    fun _ => .ite (relaysCode_returnCall _ _) (relaysCode_succeed _)

theorem pushAll_relaysCode (p : Parser) (chunks : List (List UInt8)) :
    RelaysCode (pushAll cfg p chunks : ParserProgram δ) := by
  induction chunks generalizing p with
  | nil => exact relaysCode_succeed p
  | cons chunk chunks ih => exact (embedjsonPush_relaysCode p chunk).andThen fun a => ih a.2

end Embedjson
