import Embedjson.Parser.ReturnCodes

namespace Embedjson

open Foundations Foundations.Program

variable {δ : Type} {cfg : Config} {p q : Parser} {f : UserCall δ} {k : ParserProgram δ}

/-- Whatever the callbacks return, the parser is in a state other than `invalid`. -/
def StaysValid : ParserProgram δ → Prop := Returns fun a => a.2.state ≠ .invalid

namespace StaysValid

lemma succeed (h : p.state ≠ .invalid) : StaysValid (succeed p : ParserProgram δ) := h

lemma returnCall (h : p.state ≠ .invalid) : StaysValid (returnCall f p) := fun _ => h

lemma returnErrorEx (h : p.state ≠ .invalid) (code : ErrorCode) (position : Pointer) :
    StaysValid (returnErrorEx p code position : ParserProgram δ) := fun _ => h

lemma ite {c : Prop} [Decidable c] {m : ParserProgram δ} (hk : StaysValid k) (hm : StaysValid m) :
    StaysValid (if c then k else m) := by
  by_cases h : c
  · rwa [if_pos h]
  · rwa [if_neg h]

lemma returnIf (h : p.state ≠ .invalid) (hk : StaysValid k) : StaysValid (p.returnIf f k) :=
  fun r => ite (c := r ≠ 0) (k := .done (r, p)) h hk

lemma stackPush (value : StackValue) :
    Returns (fun a => a.2.state = p.state) (stackPush cfg p value : ParserProgram δ) := by
  unfold Embedjson.stackPush
  split_ifs
  · intro r
    dsimp only
    split_ifs
    · rfl
    · rfl
  · exact fun _ => rfl
  · rfl

lemma openContainer (h : p.state ≠ .invalid) {value : StackValue} {s : ParserState}
    (hs : s ≠ .invalid) : StaysValid (openContainer cfg p value f s) := by
  refine Returns.bind (stackPush value) fun a ha => ?_
  have ha' : a.2.state ≠ .invalid := by rwa [ha]
  exact ite ha' (returnIf ha' hs)

lemma stateAfterClose {underCurly : ParserState} (hs : underCurly ≠ .invalid) :
    (stateAfterClose underCurly p).state ≠ .invalid := by
  unfold Embedjson.stateAfterClose
  split_ifs
  · simp
  · exact hs
  · simp

lemma closeContainer (h : p.state ≠ .invalid) {value : StackValue} {underCurly : ParserState}
    (hs : underCurly ≠ .invalid) (position : Pointer) :
    StaysValid (closeContainer cfg p value f underCurly position) :=
  ite (returnErrorEx h _ _) (returnIf h (stateAfterClose hs))

lemma primitive (h : p.state ≠ .invalid) {s : ParserState} (hs : s ≠ .invalid) :
    StaysValid (primitive p f s) := returnIf h hs

lemma valueToken (h : p.state ≠ .invalid) {s : ParserState} (hs : s ≠ .invalid) (token : Tok)
    (position : Pointer) (hk : StaysValid k) : StaysValid (valueToken cfg p token position s k) := by
  cases token with
  | openCurlyBracket | openBracket => exact openContainer h (by decide)
  | closeBracket => exact hk
  | closeCurlyBracket | comma | colon => exact returnErrorEx h _ _
  | true | false | null => exact primitive h hs

lemma embedjsonToken (h : p.state ≠ .invalid) (token : Tok) (position : Pointer) :
    StaysValid (embedjsonToken cfg p token position : ParserProgram δ) := by
  have herror (code : ErrorCode) : StaysValid (Embedjson.returnErrorEx (δ := δ) p code position) :=
    returnErrorEx h code position
  unfold Embedjson.embedjsonToken
  cases hs : p.state with
  | expectValue | expectObjectValue | expectArrayValue =>
    exact valueToken h (by decide) token position (herror _)
  | maybeArrayValue => exact valueToken h (by decide) token position (closeContainer h (by decide) _)
  | maybeObjectKey => exact ite (closeContainer h (by decide) _) (herror _)
  | expectObjectKey | done => exact herror _
  | expectColon => exact ite (herror _) (succeed (by simp))
  | maybeObjectComma | maybeArrayComma =>
    exact ite (succeed (by simp)) (ite (closeContainer h (by decide) _) (herror _))
  | invalid => exact absurd hs h

lemma numberToken (h : p.state ≠ .invalid) (position : Pointer) :
    StaysValid (numberToken cfg p f position) := by
  unfold Embedjson.numberToken
  cases hs : p.state with
  | expectValue | expectObjectValue | maybeArrayValue | expectArrayValue => exact returnCall (by simp)
  | invalid => exact absurd hs h
  | _ => exact returnErrorEx h _ _

lemma embedjsonTokencBegin (h : p.state ≠ .invalid) (position : Pointer) :
    StaysValid (embedjsonTokencBegin cfg p position : ParserProgram δ) := by
  unfold Embedjson.embedjsonTokencBegin
  cases hs : p.state with
  | expectValue | maybeObjectKey | expectObjectKey | expectObjectValue | maybeArrayValue
  | expectArrayValue => exact returnCall h
  | invalid => exact absurd hs h
  | _ => exact returnErrorEx h _ _

end StaysValid

end Embedjson
