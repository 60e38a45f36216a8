import Embedjson.Parser.Invariant

namespace Embedjson

open Foundations Foundations.Program

variable {δ : Type}

/-- The open brackets, the innermost first. -/
def nesting : List StackValue → LexerCall δ → List StackValue
  | s, .token .openCurlyBracket _ => .curly :: s
  | s, .token .openBracket _ => .square :: s
  | s, .token .closeCurlyBracket _ | s, .token .closeBracket _ => s.tail
  | s, _ => s

structure InBounds (p : Parser) : Prop where
  length : p.stack.length = p.stackCapacity
  size : p.stackSize ≤ 8 * p.stackCapacity
  sound : p.broken = false

structure Stacked (p : Parser) (s : List StackValue) : Prop where
  wf : Conf.Wf ⟨p.state, s⟩
  values : p.values = s
  bounds : InBounds p

def Opens (p : Parser) : LexerCall δ → Prop
  | .token .openCurlyBracket _ | .token .openBracket _ => afterValue p.state ≠ none
  | _ => False

/-- A full stack is recognized as long as its bits can be counted in an `unsigned char`. The size
itself has 64 bits. -/
def Roomy (p : Parser) (f : LexerCall δ) : Prop :=
  Opens p f → (8 * p.stackCapacity < 2 ^ 8 ∨ p.stackSize < 8 * p.stackCapacity) ∧
    p.stackSize + 1 < 2 ^ 64

variable {cfg : Config} {p : Parser} {s : List StackValue} {value : StackValue}

section Bits

lemma InBounds.pushBit (h : InBounds p) (hroom : p.stackSize < 8 * p.stackCapacity)
    (hsize : p.stackSize + 1 < 2 ^ 64) (value : StackValue) : InBounds (pushBit p value) := by
  have hnext : (Embedjson.pushBit p value).stackSize = p.stackSize + 1 := Nat.mod_eq_of_lt hsize
  have hlength := h.length
  refine ⟨?_, ?_, ?_⟩
  · rw [pushBit_stack, BitStack.length_write, h.length]
    rfl
  · rw [hnext]
    exact hroom
  · change (p.broken || decide (p.stack.length ≤ p.stackSize / 8)) = false
    rw [h.sound, Bool.false_or, decide_eq_false (by omega)]

lemma broken_pushBit (hlength : p.stack.length = p.stackCapacity)
    (hfull : 8 * p.stackCapacity ≤ p.stackSize) (value : StackValue) :
    (pushBit p value).broken = true := by
  change (p.broken || decide (p.stack.length ≤ p.stackSize / 8)) = true
  rw [decide_eq_true (by omega), Bool.or_true]

lemma InBounds.grow (h : InBounds p) (hgrowth : cfg.growth p.stackCapacity ≠ []) :
    InBounds (grow cfg p) ∧ (grow cfg p).values = p.values ∧
      (grow cfg p).stackSize < 8 * (grow cfg p).stackCapacity := by
  have hpos := List.length_pos_iff.mpr hgrowth
  have hsize := h.size
  have hlength := h.length
  refine ⟨⟨?_, ?_, h.sound⟩, ?_, ?_⟩
  · change (p.stack ++ cfg.growth p.stackCapacity).length = _
    rw [List.length_append, h.length]
    rfl
  · change p.stackSize ≤ 8 * (p.stackCapacity + (cfg.growth p.stackCapacity).length)
    omega
  · have hcontents := BitStack.contents_append p.stack (cfg.growth p.stackCapacity)
      (show p.stackSize ≤ 8 * p.stack.length by omega)
    exact congrArg (List.map StackValue.ofBit) hcontents
  · change p.stackSize < 8 * (p.stackCapacity + (cfg.growth p.stackCapacity).length)
    omega

lemma stackFull_dynamic (hdynamic : cfg.dynamicStack = true) :
    stackFull cfg p = decide (p.stackSize = 8 * p.stackCapacity % 2 ^ 8) := by
  rw [stackFull, capacity, hdynamic]
  rfl

lemma InBounds.stackPop (h : InBounds p) {rest : List StackValue} (hs : p.values = value :: rest) :
    InBounds (stackPop p) := by
  have hdecrement := decrement_values hs
  have hstack := stackSize_values hs
  have hsize := h.size
  refine ⟨h.length, ?_, ?_⟩
  · change decrement p.stackSize ≤ 8 * p.stackCapacity
    omega
  · change (p.broken || decide (p.stackSize = 0)) = false
    rw [h.sound, Bool.false_or, decide_eq_false (by omega)]

lemma InBounds.readTop (h : InBounds p) {rest : List StackValue} (hs : p.values = value :: rest) :
    InBounds (readTop p) := by
  have hdecrement := decrement_values hs
  have hstack := stackSize_values hs
  have hsize := h.size
  have hlength := h.length
  refine ⟨h.length, h.size, ?_⟩
  change (p.broken || decide (p.stackSize = 0) ||
    decide (p.stack.length ≤ decrement p.stackSize / 8)) = false
  rw [h.sound, decide_eq_false (by omega), decide_eq_false (by omega)]
  rfl

lemma stateAfterClose_stacked (h : InBounds p) (hs : p.values = s) {underCurly : ParserState}
    (hunder : underCurly = .maybeObjectKey ∨ underCurly = .maybeObjectComma) :
    Stacked (stateAfterClose underCurly p) s := by
  have hwf := Conf.wf_resume hunder s
  rw [stateAfterClose]
  cases s with
  | nil =>
    have hempty : stackEmpty p = true := by
      rw [stackEmpty, ← length_values, hs]
      rfl
    rw [if_pos hempty]
    exact ⟨hwf, hs, h.length, h.size, h.sound⟩
  | cons value rest =>
    have hempty : ¬stackEmpty p = true := by
      simp [stackEmpty, stackSize_values hs]
    have hread := h.readTop hs
    rw [if_neg hempty, stackTop_values hs]
    cases value with
    | curly => exact ⟨hwf, hs, hread.length, hread.size, hread.sound⟩
    | square => exact ⟨hwf, hs, hread.length, hread.size, hread.sound⟩

end Bits

/-- What a call leaves behind when the open brackets are `s` before and `s'` after it. Inside a string
the state stays one in which a string may stand. -/
structure Leaves (inside : Bool) (s s' : List StackValue) (a : ℤ × Parser) : Prop where
  bounds : InBounds a.2
  values : a.2.values = s ∨ a.2.values = s'
  succeeded : a.1 = 0 → Stacked a.2 s' ∧ (inside = true → afterString a.2.state ≠ none)

section Functions

variable {inside : Bool} {s' : List StackValue} {f : LexerCall δ}

lemma ensures_reject (h : Stacked p s) (code : ErrorCode) (position : Pointer) :
    Ensures UserCall.isError (Leaves inside s s')
      (returnErrorEx p code position : ParserProgram δ) :=
  fun _ hr => ⟨h.bounds, .inl h.values, fun hzero => absurd hzero (hr rfl)⟩

lemma ensures_succeed (h : Stacked p s') :
    Ensures UserCall.isError (Leaves false s s') (succeed p : ParserProgram δ) :=
  ⟨h.bounds, .inr h.values, fun _ => ⟨h, nofun⟩⟩

lemma ensures_returnCall (h : Stacked p s') (hin : inside = true → afterString p.state ≠ none)
    (u : UserCall δ) : Ensures UserCall.isError (Leaves inside s s') (returnCall u p) :=
  fun _ _ => ⟨h.bounds, .inr h.values, fun _ => ⟨h, hin⟩⟩

lemma ensures_returnIf {q : Parser} (hq : InBounds q) (hvalues : q.values = s ∨ q.values = s')
    (u : UserCall δ) {k : ParserProgram δ}
    (hk : Ensures UserCall.isError (Leaves inside s s') k) :
    Ensures UserCall.isError (Leaves inside s s') (q.returnIf u k) := by
  intro r _
  change Ensures _ _ (if r ≠ 0 then _ else _)
  by_cases hr : r = 0
  · rw [if_neg (not_not_intro hr)]
    exact hk
  · rw [if_pos hr]
    exact ⟨hq, hvalues, fun hzero => absurd hzero hr⟩

lemma Stacked.setState (h : Stacked p s) {state : ParserState} (hwf : Conf.Wf ⟨state, s⟩) :
    Stacked { p with state := state } s :=
  ⟨hwf, h.values, h.bounds.length, h.bounds.size, h.bounds.sound⟩

lemma Stacked.valid (h : Stacked p s) : p.state ≠ .invalid := by
  intro hs
  have hwf := h.wf
  rw [hs] at hwf
  exact hwf

lemma stackPush_ensures (hdynamic : cfg.dynamicStack = true) (hgrowth : ∀ n, cfg.growth n ≠ [])
    (h : InBounds p) (hroom : 8 * p.stackCapacity < 2 ^ 8 ∨ p.stackSize < 8 * p.stackCapacity)
    (hsize : p.stackSize + 1 < 2 ^ 64) (value : StackValue) :
    Ensures UserCall.isError (fun a : ℤ × Parser => InBounds a.2 ∧
        a.2.values = if a.1 = 0 then value :: p.values else p.values)
      (stackPush cfg p value : ParserProgram δ) := by
  have hpush {q : Parser} (hq : InBounds q) (hlt : q.stackSize < 8 * q.stackCapacity)
      (hsize : q.stackSize + 1 < 2 ^ 64) :
      InBounds (pushBit q value) ∧ (pushBit q value).values = value :: q.values := by
    have hlength := hq.length
    exact ⟨hq.pushBit hlt hsize value, values_pushBit (by omega) hsize value⟩
  rw [stackPush, stackFull_dynamic hdynamic, if_pos hdynamic]
  by_cases hfull : p.stackSize = 8 * p.stackCapacity % 2 ^ 8
  · obtain ⟨hgrown, hvalues, hlt⟩ := h.grow (hgrowth p.stackCapacity)
    obtain ⟨hbounds, hpushed⟩ := hpush hgrown hlt hsize
    rw [if_pos (decide_eq_true hfull)]
    intro r _
    change Ensures _ _ (if r ≠ 0 then _ else _)
    by_cases hr : r = 0
    · rw [if_neg (not_not_intro hr)]
      exact ⟨hbounds, hpushed.trans (by rw [hvalues, if_pos rfl])⟩
    · rw [if_pos hr]
      exact ⟨h, (if_neg hr).symm⟩
  · have hle := h.size
    obtain ⟨hbounds, hpushed⟩ := hpush h (by omega) hsize
    rw [if_neg (by simpa using hfull)]
    exact ⟨hbounds, hpushed.trans (if_pos rfl).symm⟩

lemma primitive_ensures (h : Stacked p s) {state : ParserState}
    (hs : afterValue p.state = some state) (u : UserCall δ) :
    Ensures UserCall.isError (Leaves false s s) (primitive p u state) :=
  ensures_returnIf h.bounds (.inl h.values) u (ensures_succeed (h.setState (h.wf.afterValue hs)))

lemma openContainer_ensures (hdynamic : cfg.dynamicStack = true) (hgrowth : ∀ n, cfg.growth n ≠ [])
    (h : Stacked p s) (hroom : 8 * p.stackCapacity < 2 ^ 8 ∨ p.stackSize < 8 * p.stackCapacity)
    (hsize : p.stackSize + 1 < 2 ^ 64) (u : UserCall δ) {state : ParserState}
    (hwf : Conf.Wf ⟨state, value :: s⟩) :
    Ensures UserCall.isError (Leaves false s (value :: s)) (openContainer cfg p value u state) := by
  refine (stackPush_ensures hdynamic hgrowth h.bounds hroom hsize value).bind fun a ha => ?_
  obtain ⟨hbounds, hvalues⟩ := ha
  rw [h.values] at hvalues
  by_cases hzero : a.1 = 0
  · rw [if_pos hzero] at hvalues
    rw [if_neg (not_not_intro hzero)]
    exact ensures_returnIf hbounds (.inr hvalues) u
      (ensures_succeed ⟨hwf, hvalues, hbounds.length, hbounds.size, hbounds.sound⟩)
  · rw [if_neg hzero] at hvalues
    rw [if_pos hzero]
    exact ⟨hbounds, .inl hvalues, fun h => absurd h hzero⟩

lemma closeContainer_ensures {rest : List StackValue} (h : Stacked p (value :: rest))
    (u : UserCall δ) {underCurly : ParserState}
    (hunder : underCurly = .maybeObjectKey ∨ underCurly = .maybeObjectComma) (position : Pointer) :
    Ensures UserCall.isError (Leaves false (value :: rest) rest)
      (closeContainer cfg p value u underCurly position) := by
  have hpop := h.bounds.stackPop h.values
  have hrest := stateAfterClose_stacked hpop (values_stackPop h.values) hunder
  rw [closeContainer]
  split_ifs
  · exact ensures_reject h _ _
  · exact ensures_returnIf h.bounds (.inl h.values) u (ensures_succeed hrest)

lemma numberToken_ensures (h : Stacked p s) (u : UserCall δ) (position : Pointer) :
    Ensures UserCall.isError (Leaves false s s) (numberToken cfg p u position) := by
  have hreject (code : ErrorCode) : Ensures UserCall.isError (Leaves false s s)
      (returnErrorEx p code position : ParserProgram δ) := ensures_reject h code position
  have hgo {state : ParserState} (hs : afterValue p.state = some state) :
      Ensures UserCall.isError (Leaves false s s) (returnCall u { p with state := state }) :=
    ensures_returnCall (h.setState (h.wf.afterValue hs)) (by nofun) u
  rw [numberToken]
  cases hs : p.state with
  | expectValue | expectObjectValue | maybeArrayValue | expectArrayValue => exact hgo (by rw [hs]; rfl)
  | invalid => exact absurd hs h.valid
  | _ => exact hreject _

lemma embedjsonTokencBegin_ensures (h : Stacked p s) (position : Pointer) :
    Ensures UserCall.isError (Leaves true s s)
      (embedjsonTokencBegin cfg p position : ParserProgram δ) := by
  have hreject (code : ErrorCode) : Ensures UserCall.isError (Leaves true s s)
      (returnErrorEx p code position : ParserProgram δ) := ensures_reject h code position
  rw [embedjsonTokencBegin]
  cases hs : p.state with
  | expectValue | maybeObjectKey | expectObjectKey | expectObjectValue | maybeArrayValue
  | expectArrayValue => exact ensures_returnCall h (fun _ => by rw [hs]; exact nofun) _
  | invalid => exact absurd hs h.valid
  | _ => exact hreject _

lemma embedjsonTokencEnd_ensures (h : Stacked p s) (hs : afterString p.state ≠ none)
    (position : Pointer) :
    Ensures UserCall.isError (Leaves false s s)
      (embedjsonTokencEnd cfg p position : ParserProgram δ) := by
  obtain ⟨state, hs⟩ := Option.ne_none_iff_exists'.mp hs
  have hlookup : lookupNextState stringNextState p = { p with state := state } := by
    rw [lookupNextState]
    cases hp : p.state <;> rw [hp] at hs <;> cases hs <;> rfl
  have hnext : Stacked { p with state := state } s := h.setState (h.wf.afterString hs)
  rw [embedjsonTokencEnd, endToken, checkState, if_neg fun hc => h.valid hc.2, hlookup, checkState,
    if_neg fun hc => hnext.valid hc.2]
  exact ensures_returnCall hnext (fun hin => absurd hin (by decide)) _

section Tokens

variable (hdynamic : cfg.dynamicStack = true) (hgrowth : ∀ n, cfg.growth n ≠ [])
  {position : Pointer} {t : Tok}

include hdynamic hgrowth

lemma valueToken_ensures (h : Stacked p s) {state : ParserState}
    (hs : afterValue p.state = some state) (hroom : Roomy p (.token t position : LexerCall δ))
    {closeBracket : ParserProgram δ}
    (hclose : Ensures UserCall.isError (Leaves false s s.tail) closeBracket) :
    Ensures UserCall.isError (Leaves false s (nesting s (.token t position : LexerCall δ)))
      (valueToken cfg p t position state closeBracket) := by
  have hne : afterValue p.state ≠ none := by
    rw [hs]
    exact nofun
  cases t with
  | openCurlyBracket =>
    obtain ⟨hroom, hsize⟩ := hroom hne
    exact openContainer_ensures hdynamic hgrowth h hroom hsize _ ⟨s, rfl⟩
  | openBracket =>
    obtain ⟨hroom, hsize⟩ := hroom hne
    exact openContainer_ensures hdynamic hgrowth h hroom hsize _ ⟨s, rfl⟩
  | closeBracket => exact hclose
  | closeCurlyBracket | comma | colon => exact ensures_reject h _ _
  | true | false | null => exact primitive_ensures h hs _

lemma embedjsonToken_ensures (h : Stacked p s) (hroom : Roomy p (.token t position : LexerCall δ)) :
    Ensures UserCall.isError (Leaves false s (nesting s (.token t position : LexerCall δ)))
      (embedjsonToken cfg p t position : ParserProgram δ) := by
  have hreject (code : ErrorCode) {inside : Bool} {s' : List StackValue} :
      Ensures UserCall.isError (Leaves inside s s')
        (returnErrorEx p code position : ParserProgram δ) := ensures_reject h code position
  have hwf := h.wf
  rw [embedjsonToken]
  cases hs : p.state with
  | expectValue | expectObjectValue | expectArrayValue =>
    exact valueToken_ensures hdynamic hgrowth h (by rw [hs]; rfl) hroom (hreject _)
  | maybeArrayValue =>
    rw [hs] at hwf
    obtain ⟨rest, rfl⟩ := hwf
    exact valueToken_ensures hdynamic hgrowth h (by rw [hs]; rfl) hroom
      (closeContainer_ensures h _ (.inl rfl) position)
  | maybeObjectKey =>
    rw [hs] at hwf
    obtain ⟨rest, rfl⟩ := hwf
    dsimp only
    by_cases ht : t = .closeCurlyBracket
    · rw [if_pos ht, ht]
      exact closeContainer_ensures h _ (.inr rfl) position
    · rw [if_neg ht]
      exact hreject _
  | maybeObjectComma =>
    rw [hs] at hwf
    obtain ⟨rest, rfl⟩ := hwf
    dsimp only
    by_cases hcomma : t = .comma
    · rw [if_pos hcomma, hcomma]
      exact ensures_succeed (h.setState ⟨rest, rfl⟩)
    by_cases ht : t = .closeCurlyBracket
    · rw [if_neg hcomma, if_pos ht, ht]
      exact closeContainer_ensures h _ (.inr rfl) position
    · rw [if_neg hcomma, if_neg ht]
      exact hreject _
  | maybeArrayComma =>
    rw [hs] at hwf
    obtain ⟨rest, rfl⟩ := hwf
    dsimp only
    by_cases hcomma : t = .comma
    · rw [if_pos hcomma, hcomma]
      exact ensures_succeed (h.setState ⟨rest, rfl⟩)
    by_cases ht : t = .closeBracket
    · rw [if_neg hcomma, if_pos ht, ht]
      exact closeContainer_ensures h _ (.inr rfl) position
    · rw [if_neg hcomma, if_neg ht]
      exact hreject _
  | expectColon =>
    rw [hs] at hwf
    obtain ⟨rest, rfl⟩ := hwf
    dsimp only
    by_cases ht : t = .colon
    · rw [if_neg (not_not_intro ht), ht]
      exact ensures_succeed (h.setState ⟨rest, rfl⟩)
    · rw [if_pos ht]
      exact hreject _
  | expectObjectKey | done => exact hreject _
  | invalid => exact absurd hs h.valid

lemma onLexerCall_ensures {b b' : Bool} (h : Stacked p s)
    (hb : b = true → afterString p.state ≠ none) (hf : phase b f = some b') (hroom : Roomy p f) :
    Ensures UserCall.isError (Leaves b' s (nesting s f)) (onLexerCall cfg f p) := by
  cases f with
  | token t position =>
    cases b <;> cases hf
    exact embedjsonToken_ensures hdynamic hgrowth h hroom
  | tokenc data bytes =>
    cases b <;> cases hf
    change Ensures _ _ (checkState cfg p data _)
    rw [checkState, if_neg fun hc => h.valid hc.2]
    exact ensures_returnCall h hb _
  | tokeni value position | tokenf value position =>
    cases b <;> cases hf
    exact numberToken_ensures h _ position
  | tokencBegin position =>
    cases b <;> cases hf
    exact embedjsonTokencBegin_ensures h position
  | tokencEnd position =>
    cases b <;> cases hf
    exact embedjsonTokencEnd_ensures h (hb rfl) position
  | errorEx code position => exact ensures_reject h code position
  | tokenbnBegin _ _ | tokenbn _ _ | tokenbnEnd _ => cases b <;> cases hf

end Tokens

end Functions

def driven (cfg : Config) (answer : List (UserCall δ) → UserCall δ → ℤ) (calls : List (LexerCall δ)) :
    ℤ × Parser :=
  (run answer (drive cfg (.zero cfg) calls) []).2

/-- What the stack should look like behind the call `f`. A callback of the application that refuses
leaves the open brackets as they were or as `f` makes them. -/
structure StackSafe (s : List StackValue) (f : LexerCall δ) (a : ℤ × Parser) : Prop where
  sound : a.2.broken = false
  length : a.2.stack.length = a.2.stackCapacity
  values : a.2.values = nesting s f ∨ a.1 ≠ 0 ∧ a.2.values = s

section Runs

variable {answer : List (UserCall δ) → UserCall δ → ℤ} {l calls : List (LexerCall δ)}
  {f : LexerCall δ}

lemma driven_concat_ok (h : (driven cfg answer l).1 = 0) (f : LexerCall δ) : ∃ history,
    driven cfg answer (l ++ [f]) =
      (run answer (onLexerCall cfg f (driven cfg answer l).2) history).2 := by
  have hcall (q : Parser) : drive cfg q [f] = onLexerCall cfg f q := by
    refine (congrArg _ (funext fun a => ?_)).trans (bind_done (onLexerCall cfg f q))
    by_cases ha : a.1 = 0
    · rw [if_neg (not_not_intro ha)]
      exact congrArg Program.done (Prod.ext ha.symm rfl)
    · rw [if_pos ha]
  have hrun := congrArg Prod.snd (run_drive_append_ok h [f])
  rw [hcall] at hrun
  exact ⟨_, hrun⟩

lemma driven_concat_failed (h : (driven cfg answer l).1 ≠ 0) (f : LexerCall δ) :
    driven cfg answer (l ++ [f]) = driven cfg answer l :=
  congrArg Prod.snd (run_drive_append_failed h [f])

lemma phase_concat {b b' : Bool} (h : (l ++ [f]).foldlM phase b = some b') :
    ∃ c, l.foldlM phase b = some c ∧ phase c f = some b' := by
  rw [List.foldlM_append] at h
  obtain ⟨c, hl, hf⟩ := Option.bind_eq_some_iff.mp h
  obtain ⟨c', hf, hc'⟩ := Option.bind_eq_some_iff.mp hf
  cases hc'
  exact ⟨c, hl, hf⟩

lemma stacked_zero (hdynamic : cfg.dynamicStack = true) : Stacked (.zero cfg) [] := by
  refine ⟨rfl, rfl, ?_, Nat.zero_le _, rfl⟩
  rw [Parser.zero, if_pos hdynamic]
  rfl

lemma Leaves.stackSafe {inside : Bool} {a : ℤ × Parser} (h : Leaves inside s (nesting s f) a) :
    StackSafe s f a := by
  refine ⟨h.bounds.sound, h.bounds.length, ?_⟩
  by_cases hzero : a.1 = 0
  · exact .inl (h.succeeded hzero).1.values
  · exact h.values.symm.imp_right fun hv => ⟨hzero, hv⟩

section Openings

variable (history : List (UserCall δ))

variable (answer) in
/-- Unless the stack is found to be full, the bit is written, whatever `u` returns. -/
lemma run_openContainer (state : ParserState) (hfull : stackFull cfg p = false) (u : UserCall δ) :
    (run answer (openContainer cfg p value u state) history).2.2.broken =
        (pushBit p value).broken ∧
      (run answer (openContainer cfg p value u state) history).2.2.values =
        (pushBit p value).values := by
  have hpush : (stackPush cfg p value : ParserProgram δ) = succeed (pushBit p value) := by
    rw [stackPush, if_neg (by simp [hfull])]
  rw [openContainer, hpush]
  change (run answer ((pushBit p value).returnIf u _) history).2.2.broken = _ ∧
    (run answer ((pushBit p value).returnIf u _) history).2.2.values = _
  rw [Parser.returnIf, run]
  by_cases hr : answer history u = 0
  · rw [if_neg (not_not_intro hr)]
    exact ⟨rfl, rfl⟩
  · rw [if_pos hr]
    exact ⟨rfl, rfl⟩

variable (cfg s) in
lemma onLexerCall_opens (hf : Opens p f) : ∃ value u state,
    onLexerCall cfg f p = openContainer cfg p value u state ∧ nesting s f = value :: s := by
  cases f with
  | token t position =>
    cases t with
    | openCurlyBracket =>
      refine ⟨.curly, .objectBegin, .maybeObjectKey, ?_, rfl⟩
      change embedjsonToken cfg p .openCurlyBracket position = _
      rw [embedjsonToken]
      cases hs : p.state <;> simp only [Opens, hs, afterValue, ne_eq, not_true_eq_false] at hf <;> rfl
    | openBracket =>
      refine ⟨.square, .arrayBegin, .maybeArrayValue, ?_, rfl⟩
      change embedjsonToken cfg p .openBracket position = _
      rw [embedjsonToken]
      cases hs : p.state <;> simp only [Opens, hs, afterValue, ne_eq, not_true_eq_false] at hf <;> rfl
    | _ => exact absurd hf id
  | _ => exact absurd hf id

/-- A bracket that is pushed safely had room, even if the callback behind it refuses. -/
lemma roomy_of_stackSafe (hdynamic : cfg.dynamicStack = true) (h : Stacked p s)
    (hsafe : StackSafe s f (run answer (onLexerCall cfg f p) history).2) : Roomy p f := by
  intro hf
  obtain ⟨value, u, state, heq, hnesting⟩ := onLexerCall_opens cfg s hf
  have hstack : s.length = p.stackSize := by rw [← h.values, length_values]
  have hsize := h.bounds.size
  have hvalues := hsafe.values
  have hsound := hsafe.sound
  rw [heq] at hvalues hsound
  rw [hnesting] at hvalues
  by_contra hroom
  have hfull : stackFull cfg p = false := by
    rw [stackFull_dynamic hdynamic]
    exact decide_eq_false (by omega)
  obtain ⟨hbroken, hpushed⟩ := run_openContainer answer history state hfull u
  rw [hbroken] at hsound
  rw [hpushed] at hvalues
  by_cases hlt : p.stackSize < 8 * p.stackCapacity
  · have hlength : (pushBit p value).values.length = (p.stackSize + 1) % 2 ^ 64 := length_values _
    rcases hvalues with hvalues | ⟨-, hvalues⟩
    · rw [hvalues, List.length_cons] at hlength
      omega
    · rw [hvalues] at hlength
      omega
  · rw [broken_pushBit h.bounds.length (by omega)] at hsound
    cases hsound

end Openings

variable (hdynamic : cfg.dynamicStack = true) (hgrowth : ∀ n, cfg.growth n ≠ [])
  (hE : ∀ history code position, answer history (.error code position) ≠ 0)

include hdynamic hgrowth hE

lemma driven_step {b b' : Bool} (hok : (driven cfg answer l).1 = 0)
    (h : Stacked (driven cfg answer l).2 s)
    (hb : b = true → afterString (driven cfg answer l).2.state ≠ none) (hf : phase b f = some b')
    (hroom : Roomy (driven cfg answer l).2 f) :
    Leaves b' s (nesting s f) (driven cfg answer (l ++ [f])) := by
  obtain ⟨history, heq⟩ := driven_concat_ok hok f
  have hrefuses : ∀ history u, u.isError = true → answer history u ≠ 0 := by
    intro history u hu
    cases u with
    | error code position => exact hE history code position
    | _ => cases hu
  rw [heq]
  exact (onLexerCall_ensures hdynamic hgrowth h hb hf hroom).run hrefuses history

lemma driven_stacked {b : Bool} (hphase : l.foldlM phase false = some b)
    (hroom : ∀ m f, m ++ [f] <+: l → (driven cfg answer m).1 = 0 →
      Roomy (driven cfg answer m).2 f) (hok : (driven cfg answer l).1 = 0) :
    Stacked (driven cfg answer l).2 (l.foldl nesting []) ∧
      (b = true → afterString (driven cfg answer l).2.state ≠ none) := by
  induction l using List.reverseRecOn generalizing b with
  | nil =>
    cases hphase
    exact ⟨stacked_zero hdynamic, nofun⟩
  | append_singleton l f ih =>
    have hzero : (driven cfg answer l).1 = 0 := by
      by_contra hne
      rw [driven_concat_failed hne] at hok
      exact hne hok
    obtain ⟨b', hl, hf⟩ := phase_concat hphase
    have hstart : l <+: l ++ [f] := List.prefix_append l [f]
    obtain ⟨hstacked, hinside⟩ := ih hl (fun m g hm => hroom m g (hm.trans hstart)) hzero
    have hleaves := driven_step hdynamic hgrowth hE hzero hstacked hinside hf
      (hroom l f List.prefix_rfl hzero)
    rw [List.foldl_append]
    exact hleaves.succeeded hok

/-- The stack is safe as long as no bracket opens on a full stack of 32 bytes or more. -/
theorem dynamicStack_safe_iff (horder : InOrder false calls) :
    (∀ l f, l ++ [f] <+: calls → (driven cfg answer l).1 = 0 →
        StackSafe (l.foldl nesting []) f (driven cfg answer (l ++ [f]))) ↔
      ∀ l f, l ++ [f] <+: calls → (driven cfg answer l).1 = 0 →
        Roomy (driven cfg answer l).2 f := by
  have hphase {m : List (LexerCall δ)} (hm : m <+: calls) : ∃ b, m.foldlM phase false = some b := by
    obtain ⟨rest, rfl⟩ := hm
    obtain ⟨b, hb⟩ := horder
    rw [List.foldlM_append] at hb
    obtain ⟨b', hb', -⟩ := Option.bind_eq_some_iff.mp hb
    exact ⟨b', hb'⟩
  constructor
  · intro hsafe l
    -- the brackets before `l` had room, so that the parser behind `l` is in order
    induction hn : l.length using Nat.strong_induction_on generalizing l with
    | _ n ih =>
      intro f hl hok
      have hstart : l <+: calls := (List.prefix_append l [f]).trans hl
      obtain ⟨b, hb⟩ := hphase hstart
      obtain ⟨hstacked, -⟩ := driven_stacked hdynamic hgrowth hE hb (fun m g hm => by
        have hlength := hm.length_le
        rw [List.length_append, List.length_singleton] at hlength
        exact ih m.length (by omega) m rfl g (hm.trans hstart)) hok
      obtain ⟨history, heq⟩ := driven_concat_ok hok f
      have hstep := hsafe l f hl hok
      rw [heq] at hstep
      exact roomy_of_stackSafe history hdynamic hstacked hstep
  · intro hroom l f hl hok
    have hstart : l <+: calls := (List.prefix_append l [f]).trans hl
    obtain ⟨b', hf⟩ := hphase hl
    obtain ⟨b, hb, hf⟩ := phase_concat hf
    obtain ⟨hstacked, hinside⟩ := driven_stacked hdynamic hgrowth hE hb
      (fun m g hm => hroom m g (hm.trans hstart)) hok
    exact (driven_step hdynamic hgrowth hE hok hstacked hinside hf (hroom l f hl hok)).stackSafe

end Runs

def Config.dynamic : Config := { Config.default with dynamicStack := true }

def openSquare : LexerCall ℚ := .token .openBracket .null

/-- The stack grows to 1, 3, 7, 15, 31 and 63 bytes. It is full at 504 bits, but 504 % 256 = 248. -/
theorem nested_out_of_bounds :
    InOrder false (List.replicate 505 openSquare) ∧
      (∀ n, Config.dynamic.growth n = List.replicate (n + 1) 0) ∧
      (driven .dynamic (accept UserCall.isError) (List.replicate 504 openSquare)).1 = 0 ∧
      (driven .dynamic (accept UserCall.isError) (List.replicate 504 openSquare)).2.stackSize = 504 ∧
      (driven .dynamic (accept UserCall.isError) (List.replicate 504 openSquare)).2.stackCapacity =
        63 ∧
      ¬StackSafe (List.replicate 504 .square) openSquare
        (driven .dynamic (accept UserCall.isError) (List.replicate 505 openSquare)) := by
  refine ⟨⟨false, by decide +kernel⟩, fun _ => rfl, by decide +kernel, by decide +kernel,
    by decide +kernel, fun h => ?_⟩
  have hbroken : (driven .dynamic (accept UserCall.isError)
      (List.replicate 505 openSquare)).2.broken = true := by decide +kernel
  exact absurd h.sound (by rw [hbroken]; decide)

def closeSquare : LexerCall ℚ := .token .closeBracket .null

/-- Nine brackets, one of which closes, and eighteen more in the second element. -/
def growingCalls : List (LexerCall ℚ) :=
  List.replicate 9 openSquare ++ [closeSquare, .token .comma .null] ++ List.replicate 18 openSquare

theorem dynamicStack_safe_iff_growing :
    (driven .dynamic (accept UserCall.isError) growingCalls).2.stackCapacity = 7 ∧
      StackSafe (List.replicate 26 .square) closeSquare
        (driven .dynamic (accept UserCall.isError) (growingCalls ++ [closeSquare])) := by
  have hrefuses : ∀ history code position,
      accept UserCall.isError history (.error code position : UserCall ℚ) ≠ 0 :=
    fun history _ _ => (accepting_accept UserCall.isError).refuses history _ rfl
  have hgrowth : ∀ n, Config.dynamic.growth n ≠ [] := fun _ => List.cons_ne_nil _ _
  have horder : InOrder false (growingCalls ++ [closeSquare]) := ⟨false, by decide +kernel⟩
  have hroom : ∀ n < 30, 8 * (driven .dynamic (accept UserCall.isError)
      ((growingCalls ++ [closeSquare]).take n)).2.stackCapacity < 2 ^ 8 ∧
        (driven .dynamic (accept UserCall.isError)
          ((growingCalls ++ [closeSquare]).take n)).2.stackSize + 1 < 2 ^ 64 := by
    decide +kernel
  refine ⟨by decide +kernel, (dynamicStack_safe_iff rfl hgrowth hrefuses horder).mpr ?_ growingCalls
    closeSquare List.prefix_rfl (by decide +kernel)⟩
  intro l f hl _ _
  have hlength : l.length < 30 := by
    have hle := hl.length_le
    rw [List.length_append, List.length_singleton] at hle
    exact hle
  have htake := List.prefix_iff_eq_take.mp ((List.prefix_append l [f]).trans hl)
  rw [htake]
  exact (hroom _ hlength).imp_left .inl

end Embedjson
