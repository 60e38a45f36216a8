import Embedjson.Parser.Refinement

/-! Every function of the parser makes the callbacks of the automaton's move. The checks of a debug
build never fail on the way. -/

namespace Embedjson

open Foundations Foundations.Program

variable {δ : Type}

/-- Make callbacks one after another. A refused one leaves `q` behind. -/
def perform (p q : Parser) : List (UserCall δ) → ParserProgram δ
  | [] => succeed p
  | u :: us => .call u fun r => if r ≠ 0 then .done (r, q) else perform p q us

def UserCall.isOpening : UserCall δ → Bool
  | objectBegin | arrayBegin => true
  | _ => false

def UserCall.isPlain (u : UserCall δ) : Bool := !u.isError && !u.isOpening

def Intact (cfg : Config) (p : Parser) : Prop := ∃ c : Conf, Represents cfg p c ∧ c.Wf

/-- What is left when the application refuses `u`. A bracket is pushed before the application is
asked, and nothing pops it again. -/
def Refused (cfg : Config) (q : Parser) (u : UserCall δ) : Prop :=
  if u.isOpening then Intact cfg (stackPop q) else Intact cfg q

/-- A program of the parser `p` for a move of the automaton. A rejection is final only when
`embedjson_error` returns a non-zero code. -/
def Implements (cfg : Config) (p : Parser) (m : ParserProgram δ) :
    Option (List (UserCall δ) × Conf) → Prop
  | none => ∃ code position next, code ≠ .internalError ∧ m = .call (.error code position) next ∧
      ∀ r, r ≠ 0 → next r = .done (r, p)
  | some (us, c) => ∃ p' q, Represents cfg p' c ∧ Harmless cfg q ∧ m = perform p' q us ∧
      ∀ u ∈ us, u.isError = false ∧ Refused cfg q u

/-- The calls that the lexer makes in this configuration, without big numbers. -/
def Conf.Expects (c : Conf) : LexerCall δ → Prop
  | .tokencEnd _ => afterString c.state ≠ none
  | .tokenbnBegin _ _ | .tokenbn _ _ | .tokenbnEnd _ => False
  | .errorEx code _ => code ≠ .internalError
  | _ => True

variable {cfg : Config} {p : Parser} {c : Conf}

section Observations

lemma observe_perform {p' q : Parser} {us : List (UserCall δ)} (hus : ∀ u ∈ us, u.isError = false) :
    observe UserCall.isError (perform p' q us) = (us, some (0, p')) := by
  induction us with
  | nil => rfl
  | cons u us ih =>
    obtain ⟨hu, hus⟩ := List.forall_mem_cons.mp hus
    rw [perform, observe_call_of_notMem hu, if_neg (by decide), ih hus]

lemma Implements.observe_some {m : ParserProgram δ} {us : List (UserCall δ)}
    (h : Implements cfg p m (some (us, c))) :
    ∃ p', Represents cfg p' c ∧ observe UserCall.isError m = (us, some (0, p')) := by
  obtain ⟨p', q, hr, -, rfl, hus⟩ := h
  exact ⟨p', hr, observe_perform fun u hu => (hus u hu).1⟩

lemma Implements.observe_none {m : ParserProgram δ} (h : Implements cfg p m none) :
    ∃ code position, observe UserCall.isError m = ([.error code position], none) := by
  obtain ⟨code, position, next, -, rfl, -⟩ := h
  exact ⟨code, position, rfl⟩

end Observations

section Functions

lemma implements_reject {code : ErrorCode} (h : code ≠ .internalError) (position : Pointer) :
    Implements cfg p (returnErrorEx p code position : ParserProgram δ) none :=
  ⟨code, position, _, h, rfl, fun _ _ => rfl⟩

lemma implements_succeed {p' : Parser} (hr : Represents cfg p' c) (hc : c.Wf) :
    Implements cfg p (succeed p' : ParserProgram δ) (some ([], c)) :=
  ⟨p', p', hr, hr.harmless hc, rfl, by simp⟩

lemma refused_of_isPlain {q : Parser} (hr : Represents cfg q c) (hc : c.Wf) {u : UserCall δ}
    (hu : u.isPlain = true) : u.isError = false ∧ Refused cfg q u := by
  simp only [UserCall.isPlain, Bool.and_eq_true, Bool.not_eq_true'] at hu
  exact ⟨hu.1, by simpa [Refused, hu.2] using ⟨c, hr, hc⟩⟩

lemma implements_returnIf {p' q : Parser} {d : Conf} (hr : Represents cfg p' c)
    (hq : Represents cfg q d) (hd : d.Wf) {u : UserCall δ} (hu : u.isPlain = true) :
    Implements cfg p (q.returnIf u (succeed p')) (some ([u], c)) :=
  ⟨p', q, hr, hq.harmless hd, rfl, by simpa using refused_of_isPlain hq hd hu⟩

lemma implements_returnCall {p' : Parser} (hr : Represents cfg p' c) (hc : c.Wf) {u : UserCall δ}
    (hu : u.isPlain = true) : Implements cfg p (returnCall u p') (some ([u], c)) := by
  refine ⟨p', p', hr, hr.harmless hc, congrArg (Program.call u) (funext fun r => ?_),
    by simpa using refused_of_isPlain hr hc hu⟩
  by_cases h : r = 0
  · rw [if_neg (not_not_intro h), h]
    rfl
  · rw [if_pos h]

variable (hr : Represents cfg p c) (hc : c.Wf) (hstatic : cfg.dynamicStack = false)

include hr

lemma closeContainer_of_top {top : StackValue} {rest : List StackValue}
    (htop : c.stack = top :: rest) (u : UserCall δ) (underCurly : ParserState)
    (position : Pointer) :
    closeContainer cfg p top u underCurly position =
      p.returnIf u (succeed (stateAfterClose underCurly (stackPop p))) := by
  refine if_neg fun h => ?_
  rcases h.2 with he | ht
  · simp [hr.stackEmpty, htop] at he
  · exact ht (hr.stackTop htop)

lemma stackFull_iff (hstatic : cfg.dynamicStack = false) :
    stackFull cfg p = decide (c.stack.length = cfg.stackLimit) := by
  rw [stackFull, capacity, hstatic, hr.size_eq]
  rfl

include hc

lemma checkState_of_wf (position : Pointer) (k : ParserProgram δ) :
    checkState cfg p position k = k :=
  if_neg fun h => (hr.harmless hc).valid h.2

lemma primitive_implements {s : ParserState} (hs : afterValue c.state = some s) {u : UserCall δ}
    (hu : u.isPlain = true) :
    Implements cfg p (primitive p u s) (Automaton.primitive c u) := by
  rw [Automaton.primitive, hs]
  exact implements_returnIf (hr.setState s) hr hc hu

include hstatic

lemma openContainer_implements (hv : afterValue c.state ≠ none) (value : StackValue)
    {u : UserCall δ} (hu : u.isError = false) (hopens : u.isOpening = true) {s : ParserState} :
    Implements cfg p (openContainer cfg p value u s)
      (cfg.automaton.openValue c value u s) := by
  unfold openContainer stackPush Automaton.openValue
  rw [stackFull_iff hr hstatic, hstatic, show cfg.automaton.capacity = cfg.stackLimit from rfl]
  by_cases hfull : c.stack.length = cfg.stackLimit
  · rw [if_pos (Or.inr hfull : afterValue c.state = none ∨ c.stack.length = cfg.stackLimit),
      if_pos (decide_eq_true hfull), if_neg (by decide)]
    exact ⟨.stackOverflow, .null, _, by decide, rfl, fun r h => if_pos h⟩
  · rw [if_neg (not_or.mpr ⟨hv, hfull⟩), if_neg (by simpa using hfull)]
    have hpush := hr.pushBit hfull value
    have hpop : Represents cfg (stackPop (pushBit p value)) c := hpush.stackPop rfl
    have hrefused : Refused cfg (pushBit p value) u := by simpa [Refused, hopens] using ⟨c, hpop, hc⟩
    exact ⟨_, pushBit p value, hpush.setState s,
      ⟨(hr.harmless hc).valid, hpush.size, hpush.sound⟩, rfl, by simpa using ⟨hu, hrefused⟩⟩

omit hstatic

lemma closeContainer_implements {top : StackValue} {rest : List StackValue}
    (htop : c.stack = top :: rest) {u : UserCall δ} (hu : u.isPlain = true)
    (underCurly : ParserState) (position : Pointer) :
    Implements cfg p (closeContainer cfg p top u underCurly position)
      (Automaton.closeValue c u underCurly) := by
  rw [closeContainer_of_top hr htop, Automaton.closeValue, htop]
  exact implements_returnIf ((hr.stackPop htop).stateAfterClose underCurly) hr hc hu

lemma numberToken_implements {u : UserCall δ} (hu : u.isPlain = true) (position : Pointer) :
    Implements cfg p (numberToken cfg p u position) (Automaton.primitive c u) := by
  unfold numberToken Automaton.primitive
  rw [hr.state]
  obtain ⟨state, stack⟩ := c
  cases state with
  | expectValue | expectObjectValue | maybeArrayValue | expectArrayValue =>
    exact implements_returnCall (hr.setState _) (hc.afterValue rfl) hu
  | invalid => exact hc.elim
  | _ => exact implements_reject (by decide) position

lemma embedjsonTokencBegin_implements (position : Pointer) :
    Implements cfg p (embedjsonTokencBegin cfg p position : ParserProgram δ)
      ((afterString c.state).map fun _ => ([.stringBegin], c)) := by
  unfold embedjsonTokencBegin
  rw [hr.state]
  obtain ⟨state, stack⟩ := c
  cases state with
  | expectValue | maybeObjectKey | expectObjectKey | expectObjectValue | maybeArrayValue
  | expectArrayValue => exact implements_returnCall hr hc rfl
  | invalid => exact hc.elim
  | _ => exact implements_reject (by decide) position

lemma embedjsonTokencEnd_eq {s : ParserState} (hs : afterString c.state = some s)
    (position : Pointer) :
    embedjsonTokencEnd cfg p position =
      (returnCall .stringEnd { p with state := s } : ParserProgram δ) := by
  have hnext : stringNextState c.state = some s := by
    obtain ⟨state, stack⟩ := c
    cases state <;> cases hs <;> rfl
  have hlookup : lookupNextState stringNextState p = { p with state := s } := by
    rw [lookupNextState, hr.state, hnext]
  rw [embedjsonTokencEnd, endToken, checkState_of_wf hr hc, hlookup,
    checkState_of_wf (hr.setState s) (hc.afterString hs)]

lemma embedjsonTokencEnd_implements (hs : afterString c.state ≠ none) (position : Pointer) :
    Implements cfg p (embedjsonTokencEnd cfg p position : ParserProgram δ)
      ((afterString c.state).map fun s => ([.stringEnd], { c with state := s })) := by
  obtain ⟨s, hs⟩ := Option.ne_none_iff_exists'.mp hs
  rw [embedjsonTokencEnd_eq hr hc hs, hs]
  exact implements_returnCall (hr.setState s) (hc.afterString hs) rfl

include hstatic

lemma valueToken_implements {s : ParserState} (hv : afterValue c.state = some s)
    {k : ParserProgram δ} (token : Tok) (position : Pointer)
    (hk : Implements cfg p k (cfg.automaton.token c .closeBracket)) :
    Implements cfg p (valueToken cfg p token position s k) (cfg.automaton.token c token) := by
  have hne : afterValue c.state ≠ none := by simp [hv]
  cases token with
  | openCurlyBracket | openBracket => exact openContainer_implements hr hc hstatic hne _ rfl rfl
  | closeBracket => exact hk
  | true | false | null => exact primitive_implements hr hc hv rfl
  | closeCurlyBracket | comma | colon =>
    obtain ⟨state, stack⟩ := c
    cases state <;> cases hv <;> exact implements_reject (by decide) position

lemma embedjsonToken_implements (token : Tok) (position : Pointer) :
    Implements cfg p (embedjsonToken cfg p token position : ParserProgram δ)
      (cfg.automaton.token c token) := by
  unfold embedjsonToken
  rw [hr.state]
  obtain ⟨state, stack⟩ := c
  cases state with
  | expectValue | expectObjectValue | expectArrayValue =>
    exact valueToken_implements hr hc hstatic rfl token position
      (implements_reject (by decide) position)
  | maybeArrayValue =>
    obtain ⟨rest, hrest⟩ := hc
    exact valueToken_implements hr ⟨rest, hrest⟩ hstatic rfl token position
      (closeContainer_implements hr ⟨rest, hrest⟩ hrest rfl _ position)
  | maybeObjectKey =>
    obtain ⟨rest, hrest⟩ := hc
    cases token with
    | closeCurlyBracket =>
      exact closeContainer_implements hr ⟨rest, hrest⟩ hrest rfl _ position
    | _ => exact implements_reject (by decide) position
  | expectObjectKey => cases token <;> exact implements_reject (by decide) position
  | expectColon =>
    cases token with
    | colon => exact implements_succeed (hr.setState _) hc
    | _ => exact implements_reject (by decide) position
  | maybeObjectComma =>
    obtain ⟨rest, hrest⟩ := hc
    cases token with
    | comma => exact implements_succeed (hr.setState _) ⟨rest, hrest⟩
    | closeCurlyBracket =>
      exact closeContainer_implements hr ⟨rest, hrest⟩ hrest rfl _ position
    | _ => exact implements_reject (by decide) position
  | maybeArrayComma =>
    obtain ⟨rest, hrest⟩ := hc
    cases token with
    | comma => exact implements_succeed (hr.setState _) ⟨rest, hrest⟩
    | closeBracket =>
      exact closeContainer_implements hr ⟨rest, hrest⟩ hrest rfl _ position
    | _ => exact implements_reject (by decide) position
  | done => cases token <;> exact implements_reject (by decide) position
  | invalid => exact hc.elim

theorem onLexerCall_implements {f : LexerCall δ} (hf : c.Expects f) :
    Implements cfg p (onLexerCall cfg f p) (cfg.automaton.call c f) := by
  cases f with
  | token token position => exact embedjsonToken_implements hr hc hstatic token position
  | tokenc data bytes =>
    rw [onLexerCall, embedjsonTokenc, checkState_of_wf hr hc]
    exact implements_returnCall hr hc rfl
  | tokeni value position | tokenf value position =>
    exact numberToken_implements hr hc rfl position
  | tokencBegin position => exact embedjsonTokencBegin_implements hr hc position
  | tokencEnd position => exact embedjsonTokencEnd_implements hr hc hf position
  | errorEx code position => exact implements_reject hf position
  | tokenbnBegin _ _ | tokenbn _ _ | tokenbnEnd _ => exact hf.elim

omit hstatic

lemma numberToken_debug (b : Bool) (u : UserCall δ) (position : Pointer) :
    numberToken { cfg with debug := b } p u position = numberToken cfg p u position := by
  unfold numberToken
  rw [hr.state]
  obtain ⟨state, stack⟩ := c
  cases state with
  | invalid => exact hc.elim
  | _ => rfl

lemma embedjsonTokencBegin_debug (b : Bool) (position : Pointer) :
    embedjsonTokencBegin { cfg with debug := b } p position =
      (embedjsonTokencBegin cfg p position : ParserProgram δ) := by
  unfold embedjsonTokencBegin
  rw [hr.state]
  obtain ⟨state, stack⟩ := c
  cases state with
  | invalid => exact hc.elim
  | _ => rfl

lemma embedjsonToken_debug (b : Bool) (token : Tok) (position : Pointer) :
    embedjsonToken { cfg with debug := b } p token position =
      (embedjsonToken cfg p token position : ParserProgram δ) := by
  have hr' : Represents { cfg with debug := b } p c :=
    ⟨hr.state, hr.stack, hr.length, hr.size, hr.sound⟩
  -- Only the checks in front of a closing bracket depend on the option.
  have hclose (top : StackValue) (rest : List StackValue) (htop : c.stack = top :: rest)
      (u : UserCall δ) (underCurly : ParserState) :
      closeContainer { cfg with debug := b } p top u underCurly position =
        closeContainer cfg p top u underCurly position := by
    rw [closeContainer_of_top hr htop, closeContainer_of_top hr' htop]
  unfold embedjsonToken
  rw [hr.state]
  obtain ⟨state, stack⟩ := c
  cases state with
  | maybeArrayValue =>
    obtain ⟨rest, hrest⟩ := hc
    dsimp only
    rw [hclose _ rest hrest]
    rfl
  | maybeObjectKey | maybeObjectComma | maybeArrayComma =>
    obtain ⟨rest, hrest⟩ := hc
    dsimp only
    rw [hclose _ rest hrest]
  | invalid => exact hc.elim
  | _ => rfl

theorem onLexerCall_debug (b : Bool) {f : LexerCall δ} (hf : c.Expects f) :
    onLexerCall { cfg with debug := b } f p = onLexerCall cfg f p := by
  have hr' : Represents { cfg with debug := b } p c :=
    ⟨hr.state, hr.stack, hr.length, hr.size, hr.sound⟩
  cases f with
  | token token position => exact embedjsonToken_debug hr hc b token position
  | tokenc data bytes =>
    rw [onLexerCall, onLexerCall, embedjsonTokenc, embedjsonTokenc, checkState_of_wf hr hc,
      checkState_of_wf hr' hc]
  | tokeni value position | tokenf value position => exact numberToken_debug hr hc b _ position
  | tokencBegin position => exact embedjsonTokencBegin_debug hr hc b position
  | tokencEnd position =>
    obtain ⟨s, hs⟩ := Option.ne_none_iff_exists'.mp hf
    rw [onLexerCall, onLexerCall, embedjsonTokencEnd_eq hr hc hs, embedjsonTokencEnd_eq hr' hc hs]
  | errorEx code position => rfl
  | tokenbnBegin _ _ | tokenbn _ _ | tokenbnEnd _ => exact hf.elim

end Functions

end Embedjson
