import Embedjson.Parser.Documents
import Embedjson.Separators

/-! A parser with a dynamic stack makes the moves of the automaton as long as no access leaves the
stack, and it asks for more memory on the way. -/

namespace Embedjson

open Foundations Foundations.Program

variable {δ : Type} {cfg : Config} {p q : Parser}

def UserCall.isOverflow : UserCall δ → Bool
  | stackOverflow => true
  | _ => false

/-- The callbacks without those for memory. -/
def quiet (us : List (UserCall δ)) : List (UserCall δ) := us.filter fun u => !u.isOverflow

@[simp] lemma quiet_append (us vs : List (UserCall δ)) : quiet (us ++ vs) = quiet us ++ quiet vs :=
  List.filter_append ..

section Memory

/-- Nothing mends a broken stack, and its capacity changes only when a bracket opens on a full one. -/
structure Grows (cfg : Config) (opens : Prop) (p q : Parser) : Prop where
  broken : p.broken = true → q.broken = true
  capacity : q.stackCapacity = p.stackCapacity ∨ opens ∧ stackFull cfg p = true ∧
    q.stackCapacity = p.stackCapacity + (cfg.growth p.stackCapacity).length

/-- The program asks for memory only if a bracket opens on a full stack. -/
def Growing (cfg : Config) (opens : Prop) (p : Parser) : ParserProgram δ → Prop :=
  Allows (fun u => u.isOverflow = true → opens ∧ stackFull cfg p = true)
    fun a => Grows cfg opens p a.2

variable {opens : Prop} {u : UserCall δ}

lemma grows_of_eq (hbroken : p.broken = true → q.broken = true)
    (hcapacity : q.stackCapacity = p.stackCapacity) : Grows cfg opens p q := ⟨hbroken, .inl hcapacity⟩

lemma grows_refl (p : Parser) : Grows cfg opens p p := grows_of_eq id rfl

lemma Grows.setState (h : Grows cfg opens p q) (state : ParserState) :
    Grows cfg opens p { q with state := state } := ⟨h.broken, h.capacity⟩

lemma growing_succeed (h : Grows cfg opens p q) : Growing cfg opens p (succeed q : ParserProgram δ) := h

lemma growing_returnCall (hu : u.isOverflow = false) (h : Grows cfg opens p q) :
    Growing cfg opens p (returnCall u q) :=
  ⟨fun hoverflow => Bool.noConfusion (hu.symm.trans hoverflow), fun _ => h⟩

lemma Growing.ite {c : Prop} [Decidable c] {k m : ParserProgram δ} (hk : Growing cfg opens p k)
    (hm : Growing cfg opens p m) : Growing cfg opens p (if c then k else m) := by
  by_cases h : c
  · rwa [if_pos h]
  · rwa [if_neg h]

lemma Growing.returnIf {k : ParserProgram δ} (hk : Growing cfg opens p k)
    (hu : u.isOverflow = true → opens ∧ stackFull cfg p = true) (h : Grows cfg opens p q) :
    Growing cfg opens p (q.returnIf u k) :=
  ⟨hu, fun r => Growing.ite (c := r ≠ 0) (k := .done (r, q)) h hk⟩

lemma growing_error (code : ErrorCode) (position : Pointer) :
    Growing cfg opens p (returnErrorEx p code position : ParserProgram δ) :=
  growing_returnCall rfl (grows_refl p)

lemma growing_stackPush (ho : opens) (value : StackValue) :
    Growing cfg opens p (stackPush cfg p value : ParserProgram δ) := by
  have hbroken (q : Parser) (h : p.broken = true → q.broken = true) :
      p.broken = true → (pushBit q value).broken = true := by
    intro hp
    change (q.broken || _) = true
    rw [h hp, Bool.true_or]
  rw [stackPush]
  by_cases hfull : stackFull cfg p = true
  · have hgrown : Grows cfg opens p (pushBit (grow cfg p) value) :=
      ⟨hbroken (grow cfg p) id, .inr ⟨ho, hfull, rfl⟩⟩
    rw [if_pos hfull]
    exact .ite (.returnIf (growing_succeed hgrown) (fun _ => ⟨ho, hfull⟩) (grows_refl p))
      (growing_returnCall rfl (grows_refl p))
  · rw [if_neg hfull]
    exact growing_succeed (grows_of_eq (hbroken p id) rfl)

lemma growing_openContainer (ho : opens) (value : StackValue) (hu : u.isOverflow = false)
    (state : ParserState) : Growing cfg opens p (openContainer cfg p value u state) :=
  Allows.bind (growing_stackPush ho value) fun _ ha =>
    Growing.ite ha (.returnIf (growing_succeed (ha.setState state)) (by simp [hu]) ha)

lemma grows_stateAfterClose (h : Grows cfg opens p q) (underCurly : ParserState) :
    Grows cfg opens p (stateAfterClose underCurly q) := by
  have hread : p.broken = true → (readTop q).broken = true := by
    intro hp
    change (q.broken || _ || _) = true
    rw [h.broken hp, Bool.true_or, Bool.true_or]
  rw [stateAfterClose]
  split_ifs
  · exact ⟨h.broken, h.capacity⟩
  · exact ⟨hread, h.capacity⟩
  · exact ⟨hread, h.capacity⟩

lemma growing_closeContainer (value : StackValue) (hu : u.isOverflow = false)
    (underCurly : ParserState) (position : Pointer) :
    Growing cfg opens p (closeContainer cfg p value u underCurly position) := by
  have hpop : Grows cfg opens p (stackPop p) := by
    refine grows_of_eq (fun hp => ?_) rfl
    change (p.broken || _) = true
    rw [hp, Bool.true_or]
  exact .ite (growing_error _ _)
    (.returnIf (growing_succeed (grows_stateAfterClose hpop underCurly)) (by simp [hu]) (grows_refl p))

lemma growing_primitive (hu : u.isOverflow = false) (state : ParserState) :
    Growing cfg opens p (primitive p u state) :=
  .returnIf (growing_succeed ((grows_refl p).setState state)) (by simp [hu]) (grows_refl p)

lemma growing_valueToken (token : Tok) (position : Pointer) (state : ParserState)
    (ho : token = .openCurlyBracket ∨ token = .openBracket → opens) {k : ParserProgram δ}
    (hk : Growing cfg opens p k) :
    Growing cfg opens p (valueToken cfg p token position state k) := by
  cases token with
  | openCurlyBracket => exact growing_openContainer (ho (.inl rfl)) _ rfl _
  | openBracket => exact growing_openContainer (ho (.inr rfl)) _ rfl _
  | closeBracket => exact hk
  | closeCurlyBracket | comma | colon => exact growing_error _ _
  | true | false | null => exact growing_primitive rfl _

lemma growing_token (token : Tok) (position : Pointer) :
    Growing cfg (Opens p (.token token position : LexerCall δ)) p
      (embedjsonToken cfg p token position : ParserProgram δ) := by
  have hstate (opens : Prop) (state : ParserState) :
      Growing cfg opens p (succeed { p with state := state } : ParserProgram δ) :=
    growing_succeed ((grows_refl p).setState state)
  have hopens (hp : afterValue p.state ≠ none) (ht : token = .openCurlyBracket ∨ token = .openBracket) :
      Opens p (.token token position : LexerCall δ) := by
    rcases ht with rfl | rfl <;> exact hp
  rw [embedjsonToken]
  cases hs : p.state with
  | expectValue | expectObjectValue | expectArrayValue =>
    exact growing_valueToken _ _ _ (hopens (by simp [hs, afterValue])) (growing_error _ _)
  | maybeObjectKey => exact .ite (growing_closeContainer _ rfl _ _) (growing_error _ _)
  | expectObjectKey | done => exact growing_error _ _
  | expectColon => exact .ite (growing_error _ _) (hstate _ _)
  | maybeObjectComma | maybeArrayComma =>
    exact .ite (hstate _ _) (.ite (growing_closeContainer _ rfl _ _) (growing_error _ _))
  | maybeArrayValue =>
    exact growing_valueToken _ _ _ (hopens (by simp [hs, afterValue])) (growing_closeContainer _ rfl _ _)
  | invalid => exact .ite (growing_error _ _) (growing_succeed (grows_refl p))

lemma growing_numberToken (hu : u.isOverflow = false) (position : Pointer) :
    Growing cfg opens p (numberToken cfg p u position) := by
  rw [numberToken]
  cases p.state with
  | expectValue | expectObjectValue | maybeArrayValue | expectArrayValue =>
    exact growing_returnCall hu ((grows_refl p).setState _)
  | invalid => exact .ite (growing_error _ _) (growing_succeed (grows_refl p))
  | _ => exact growing_error _ _

lemma growing_tokencBegin (position : Pointer) :
    Growing cfg opens p (embedjsonTokencBegin cfg p position : ParserProgram δ) := by
  rw [embedjsonTokencBegin]
  cases p.state with
  | expectValue | maybeObjectKey | expectObjectKey | expectObjectValue | maybeArrayValue
  | expectArrayValue => exact growing_returnCall rfl (grows_refl p)
  | invalid => exact .ite (growing_error _ _) (growing_succeed (grows_refl p))
  | _ => exact growing_error _ _

lemma growing_endToken (table : ParserState → Option ParserState) (hu : u.isOverflow = false)
    (position : Pointer) : Growing cfg opens p (endToken cfg table u p position) := by
  have hlookup : Grows cfg opens p (lookupNextState table p) := by
    rw [lookupNextState]
    cases table p.state with
    | some state => exact grows_of_eq id rfl
    | none => exact grows_of_eq (fun _ => rfl) rfl
  exact .ite (growing_error _ _) (.ite (growing_returnCall rfl hlookup) (growing_returnCall hu hlookup))

lemma growing_onLexerCall (f : LexerCall δ) (p : Parser) :
    Growing cfg (Opens p f) p (onLexerCall cfg f p) := by
  cases f with
  | token token position => exact growing_token token position
  | tokenc data bytes | tokenbn data bytes =>
    exact .ite (growing_error _ _) (growing_returnCall rfl (grows_refl p))
  | tokeni value position | tokenf value position | tokenbnBegin position value =>
    exact growing_numberToken rfl _
  | tokencBegin position => exact growing_tokencBegin position
  | tokencEnd position | tokenbnEnd position => exact growing_endToken _ rfl _
  | errorEx code position => exact growing_error _ _

lemma observe_of_parserStep {f : LexerCall δ} {os : List (UserCall δ)}
    (h : parserStep cfg p f = (os, .ok q)) :
    ∃ r, observe UserCall.isError (onLexerCall cfg f p) = (os, some (r, q)) := by
  rw [parserStep] at h
  rcases ho : observe UserCall.isError (onLexerCall cfg f p) with ⟨calls, _ | ⟨r, t⟩⟩
  · rw [ho] at h
    cases h
  · rw [ho] at h
    cases h
    exact ⟨r, rfl⟩

lemma parserStep_grows {f : LexerCall δ} {os : List (UserCall δ)}
    (h : parserStep cfg p f = (os, .ok q)) : Grows cfg (Opens p f) p q := by
  obtain ⟨r, ho⟩ := observe_of_parserStep h
  exact (growing_onLexerCall f p).returns.observe ho

lemma parserStep_quiet {f : LexerCall δ} {os : List (UserCall δ)} (h : parserStep cfg p f = (os, .ok q))
    (hroom : ¬(Opens p f ∧ stackFull cfg p = true)) : ∀ u ∈ os, u.isOverflow = false := by
  obtain ⟨r, ho⟩ := observe_of_parserStep h
  have hgrowing : Growing cfg (Opens p f) p (onLexerCall cfg f p) := growing_onLexerCall f p
  have hcalls := Allows.observe (E := UserCall.isError) hgrowing
  rw [ho] at hcalls
  intro u hu
  exact Bool.eq_false_iff.mpr fun hoverflow => hroom (hcalls u hu hoverflow)

end Memory

/-- A program for a move of the automaton, apart from the callbacks for memory. -/
def Mimics (m : ParserProgram δ) : Automaton.Move δ → Prop
  | none => ∃ code position, observe UserCall.isError m = ([.error code position], none)
  | some (us, c) => ∃ os q, observe UserCall.isError m = (os, some (0, q)) ∧ quiet os = us ∧
      q.state = c.state

section Moves

lemma Conf.Wf.valid {c : Conf} (hc : c.Wf) : c.state ≠ .invalid := by
  intro h
  rw [Conf.Wf, h] at hc
  exact hc

variable {c : Conf} {A : Automaton} {position : Pointer}

lemma mimics_error (p : Parser) (code : ErrorCode) (position : Pointer) :
    Mimics (returnErrorEx p code position : ParserProgram δ) none := ⟨code, position, rfl⟩

lemma mimics_succeed (h : p.state = c.state) :
    Mimics (succeed p : ParserProgram δ) (some ([], c)) := ⟨[], p, rfl, rfl, h⟩

lemma mimics_returnCall {u : UserCall δ} (hu : u.isError = false ∧ u.isOverflow = false)
    (h : p.state = c.state) : Mimics (returnCall u p) (some ([u], c)) := by
  refine ⟨[u], p, observe_call_of_notMem hu.1 _, ?_, h⟩
  simp [quiet, hu.2]

lemma mimics_returnIf {u : UserCall δ} (hu : u.isError = false ∧ u.isOverflow = false)
    (h : q.state = c.state) : Mimics (p.returnIf u (succeed q)) (some ([u], c)) := by
  refine ⟨[u], q, ?_, by simp [quiet, hu.2], h⟩
  rw [Parser.returnIf, observe_call_of_notMem hu.1, if_neg (not_not_intro rfl)]
  rfl

lemma mimics_primitive {state : ParserState}
    (hs : afterValue c.state = some state) {u : UserCall δ}
    (hu : u.isError = false ∧ u.isOverflow = false) :
    Mimics (primitive p u state) (Automaton.primitive c u) := by
  rw [Automaton.primitive, hs]
  exact mimics_returnIf hu rfl

lemma mimics_openContainer (hdynamic : cfg.dynamicStack = true)
    (hs : afterValue c.state ≠ none) (hroom : c.stack.length ≠ A.capacity) {value : StackValue}
    {state : ParserState} {u : UserCall δ} (hu : u.isError = false ∧ u.isOverflow = false) :
    Mimics (openContainer cfg p value u state) (A.openValue c value u state) := by
  rw [Automaton.openValue, if_neg (not_or.mpr ⟨hs, hroom⟩), openContainer, stackPush, if_pos hdynamic]
  have hcall (q : Parser) : observe UserCall.isError (q.returnIf u (succeed { q with state := state })) =
      ([u], some (0, { q with state := state })) := by
    rw [Parser.returnIf, observe_call_of_notMem hu.1, if_neg (not_not_intro rfl)]
    rfl
  have hquiet : quiet [u] = [u] := by simp [quiet, hu.2]
  by_cases hfull : stackFull cfg p = true
  · rw [if_pos hfull]
    refine ⟨[.stackOverflow, u], { pushBit (grow cfg p) value with state := state }, ?_, hquiet, rfl⟩
    change observe UserCall.isError (.call .stackOverflow _) = _
    rw [observe_call_of_notMem rfl]
    exact congrArg (fun x => (UserCall.stackOverflow :: x.1, x.2)) (hcall (pushBit (grow cfg p) value))
  · rw [if_neg hfull]
    exact ⟨[u], _, hcall (pushBit p value), hquiet, rfl⟩

lemma stateAfterClose_state_eq {s : List StackValue} (hs : p.values = s) (underCurly : ParserState) :
    (stateAfterClose underCurly p).state = resume underCurly s := by
  rw [stateAfterClose]
  cases s with
  | nil =>
    have hempty : stackEmpty p = true := by
      rw [stackEmpty, ← length_values, hs]
      rfl
    rw [if_pos hempty]
    rfl
  | cons value rest =>
    have hempty : ¬stackEmpty p = true := by
      simp [stackEmpty, stackSize_values hs]
    rw [if_neg hempty, stackTop_values hs]
    cases value with
    | curly => rfl
    | square => rfl

lemma mimics_closeContainer {value : StackValue} {rest : List StackValue} (hs : p.values = c.stack)
    (htop : c.stack = value :: rest) {u : UserCall δ}
    (hu : u.isError = false ∧ u.isOverflow = false) (underCurly : ParserState) :
    Mimics (closeContainer cfg p value u underCurly position)
      (Automaton.closeValue c u underCurly) := by
  rw [htop] at hs
  have hcheck : ¬(cfg.debug = true ∧ (stackEmpty p = true ∨ stackTop p ≠ value)) := by
    rintro ⟨-, hempty | hne⟩
    · simp [stackEmpty, stackSize_values hs] at hempty
    · exact hne (stackTop_values hs)
  rw [closeContainer, if_neg hcheck, Automaton.closeValue, htop]
  exact mimics_returnIf hu (stateAfterClose_state_eq (values_stackPop hs) underCurly)

lemma mimics_numberToken (hc : c.Wf) (hstate : p.state = c.state) {u : UserCall δ}
    (hu : u.isError = false ∧ u.isOverflow = false) :
    Mimics (numberToken cfg p u position) (Automaton.primitive c u) := by
  rw [numberToken, Automaton.primitive, hstate]
  obtain ⟨state, stack⟩ := c
  cases state with
  | expectValue | expectObjectValue | maybeArrayValue | expectArrayValue =>
    exact mimics_returnCall hu rfl
  | invalid => exact hc.elim
  | _ => exact mimics_error _ _ _

lemma mimics_tokencBegin (hc : c.Wf) (hstate : p.state = c.state) :
    Mimics (embedjsonTokencBegin cfg p position : ParserProgram δ)
      ((afterString c.state).map fun _ => ([.stringBegin], c)) := by
  rw [embedjsonTokencBegin, hstate]
  obtain ⟨state, stack⟩ := c
  cases state with
  | expectValue | maybeObjectKey | expectObjectKey | expectObjectValue | maybeArrayValue
  | expectArrayValue => exact mimics_returnCall ⟨rfl, rfl⟩ hstate
  | invalid => exact hc.elim
  | _ => exact mimics_error _ _ _

lemma mimics_tokencEnd (hc : c.Wf) (hstate : p.state = c.state) (hs : afterString c.state ≠ none) :
    Mimics (embedjsonTokencEnd cfg p position : ParserProgram δ)
      ((afterString c.state).map fun state => ([.stringEnd], { c with state := state })) := by
  obtain ⟨state, hs⟩ := Option.ne_none_iff_exists'.mp hs
  have hlookup : lookupNextState stringNextState p = { p with state := state } := by
    rw [lookupNextState, hstate]
    cases hp : c.state <;> rw [hp] at hs <;> cases hs <;> rfl
  have hvalid : p.state ≠ .invalid := by
    rw [hstate]
    exact hc.valid
  have hnext : state ≠ .invalid := (hc.afterString hs).valid
  rw [embedjsonTokencEnd, endToken, checkState, if_neg fun h => hvalid h.2, hlookup, checkState,
    if_neg fun h => hnext h.2, hs]
  exact mimics_returnCall ⟨rfl, rfl⟩ rfl

section Tokens

variable (hdynamic : cfg.dynamicStack = true) {t : Tok}

include hdynamic

lemma mimics_valueToken (hstate : p.state = c.state) {state : ParserState}
    (hv : afterValue c.state = some state)
    (hroom : Opens p (.token t position : LexerCall δ) → c.stack.length ≠ A.capacity)
    {k : ParserProgram δ} (hk : Mimics k (A.token c .closeBracket)) :
    Mimics (valueToken cfg p t position state k) (A.token c t) := by
  have hne : afterValue c.state ≠ none := by simp [hv]
  have hopens : afterValue p.state ≠ none := by rwa [hstate]
  cases t with
  | openCurlyBracket | openBracket => exact mimics_openContainer hdynamic hne (hroom hopens) ⟨rfl, rfl⟩
  | closeBracket => exact hk
  | true | false | null => exact mimics_primitive hv ⟨rfl, rfl⟩
  | closeCurlyBracket | comma | colon =>
    obtain ⟨state, stack⟩ := c
    cases state <;> cases hv <;> exact mimics_error _ _ _

variable (hA : A.afterEmptyArray = .maybeObjectKey) (hc : c.Wf) (hstate : p.state = c.state)
  (hs : p.values = c.stack)

include hA hc hstate hs

lemma mimics_token
    (hroom : Opens p (.token t position : LexerCall δ) → c.stack.length ≠ A.capacity) :
    Mimics (embedjsonToken cfg p t position : ParserProgram δ) (A.token c t) := by
  rw [embedjsonToken, hstate]
  obtain ⟨state, stack⟩ := c
  cases state with
  | expectValue | expectObjectValue | expectArrayValue =>
    exact mimics_valueToken hdynamic hstate rfl hroom (mimics_error _ _ _)
  | maybeArrayValue =>
    obtain ⟨rest, hrest⟩ := hc
    refine mimics_valueToken hdynamic hstate rfl hroom ?_
    rw [Automaton.token, hA]
    exact mimics_closeContainer hs hrest ⟨rfl, rfl⟩ _
  | maybeObjectKey =>
    obtain ⟨rest, hrest⟩ := hc
    cases t with
    | closeCurlyBracket => exact mimics_closeContainer hs hrest ⟨rfl, rfl⟩ _
    | _ => exact mimics_error _ _ _
  | expectObjectKey => cases t <;> exact mimics_error _ _ _
  | expectColon =>
    cases t with
    | colon => exact mimics_succeed rfl
    | _ => exact mimics_error _ _ _
  | maybeObjectComma =>
    obtain ⟨rest, hrest⟩ := hc
    cases t with
    | comma => exact mimics_succeed rfl
    | closeCurlyBracket => exact mimics_closeContainer hs hrest ⟨rfl, rfl⟩ _
    | _ => exact mimics_error _ _ _
  | maybeArrayComma =>
    obtain ⟨rest, hrest⟩ := hc
    cases t with
    | comma => exact mimics_succeed rfl
    | closeBracket => exact mimics_closeContainer hs hrest ⟨rfl, rfl⟩ _
    | _ => exact mimics_error _ _ _
  | done => cases t <;> exact mimics_error _ _ _
  | invalid => exact hc.elim

lemma mimics_onLexerCall {f : LexerCall δ} (hf : c.Expects f)
    (hroom : Opens p f → c.stack.length ≠ A.capacity) :
    Mimics (onLexerCall cfg f p) (A.call c f) := by
  cases f with
  | token t position => exact mimics_token hdynamic hA hc hstate hs hroom
  | tokenc data bytes =>
    have hvalid : p.state ≠ .invalid := by
      rw [hstate]
      exact hc.valid
    rw [onLexerCall, embedjsonTokenc, checkState, if_neg fun h => hvalid h.2]
    exact mimics_returnCall ⟨rfl, rfl⟩ hstate
  | tokeni value position | tokenf value position => exact mimics_numberToken hc hstate ⟨rfl, rfl⟩
  | tokencBegin position => exact mimics_tokencBegin hc hstate
  | tokencEnd position => exact mimics_tokencEnd hc hstate hf
  | errorEx code position => exact mimics_error _ _ _
  | tokenbnBegin _ _ | tokenbn _ _ | tokenbnEnd _ => exact hf.elim

end Tokens

end Moves

structure Embodies (p : Parser) (c : Conf) : Prop where
  state : p.state = c.state
  stacked : Stacked p c.stack

section Steps

variable {c c' : Conf} {A : Automaton} {us : List (UserCall δ)} {f : LexerCall δ}

lemma Embodies.wf (h : Embodies p c) : c.Wf := by
  have hwf := h.stacked.wf
  rw [h.state] at hwf
  exact hwf

lemma Embodies.length (h : Embodies p c) : c.stack.length = p.stackSize := by
  rw [← h.stacked.values, length_values]

lemma call_nesting (h : A.call c f = some (us, c')) : c'.stack = nesting c.stack f := by
  have hprimitive {u : UserCall δ} (h : Automaton.primitive c u = some (us, c')) :
      c'.stack = c.stack := by
    obtain ⟨state, -, heq⟩ := Option.map_eq_some_iff.mp h
    cases heq
    rfl
  cases f with
  | token t position =>
    cases t with
    | openCurlyBracket | openBracket =>
      obtain ⟨-, -, -, rfl⟩ := Automaton.openValue_eq_some h
      rfl
    | true | false | null => exact hprimitive h
    | closeCurlyBracket | closeBracket | comma | colon =>
      rw [Automaton.call, Automaton.token] at h
      cases hs : c.state <;> rw [hs] at h <;> cases h <;> rfl
  | tokenc data bytes =>
    cases h
    rfl
  | tokeni value position | tokenf value position => exact hprimitive h
  | tokencBegin position | tokencEnd position =>
    obtain ⟨state, -, heq⟩ := Option.map_eq_some_iff.mp h
    cases heq
    rfl
  | errorEx _ _ | tokenbnBegin _ _ | tokenbn _ _ | tokenbnEnd _ => cases h

lemma Embodies.step {b b' : Bool} (h : Embodies p c) (hdynamic : cfg.dynamicStack = true)
    (hgrowth : ∀ n, cfg.growth n ≠ []) (hA : A.afterEmptyArray = .maybeObjectKey)
    (hb : b = true → afterString c.state ≠ none) (hf : phase b f = some b') (hroom : Roomy p f)
    (hcapacity : Opens p f → c.stack.length ≠ A.capacity) :
    match A.call c f with
    | some (us, c') => ∃ os q, parserStep cfg p f = (os, .ok q) ∧ quiet os = us ∧ Embodies q c'
    | none => ∃ os code, parserStep cfg p f = (os, .error code) := by
  have hb' : b = true → afterString p.state ≠ none := by rwa [h.state]
  have hmimics := mimics_onLexerCall hdynamic hA h.wf h.state h.stacked.values
    (expects_of_phase hf hb) hcapacity
  cases hm : A.call c f with
  | none =>
    rw [hm] at hmimics
    obtain ⟨code, position, ho⟩ := hmimics
    exact ⟨[.error code position], code, by rw [parserStep, ho]; rfl⟩
  | some a =>
    obtain ⟨us, c'⟩ := a
    rw [hm] at hmimics
    obtain ⟨os, q, ho, hquiet, hstate⟩ := hmimics
    have hleaves := (onLexerCall_ensures hdynamic hgrowth h.stacked hb' hf hroom).observe ho
    have hstacked := (hleaves.succeeded rfl).1
    rw [← call_nesting hm] at hstacked
    exact ⟨os, q, by rw [parserStep, ho], hquiet, hstate, hstacked⟩

end Steps

namespace Automaton

variable {A : Automaton} {c c' : Conf} {us : List (UserCall δ)} {calls : List (LexerCall δ)}

def caller (A : Automaton) : Transducer Conf (LexerCall δ) (UserCall δ) Unit where
  step c f :=
    match A.call c f with
    | some (us, c') => (us, .ok c')
    | none => ([], .error ())

lemma caller_step_ok {f : LexerCall δ} :
    A.caller.step c f = (us, .ok c') ↔ A.call c f = some (us, c') := by
  simp only [caller]
  rcases A.call c f with _ | ⟨vs, d⟩ <;> simp

lemma call_forget (A : Automaton) (c : Conf) (f : LexerCall δ) : A.call c f.forget = A.call c f := by
  cases f <;> rfl

lemma caller_run_forget (A : Automaton) (c : Conf) (calls : List (LexerCall δ)) :
    A.caller.run c (calls.map LexerCall.forget) = A.caller.run c calls := by
  induction calls generalizing c with
  | nil => rfl
  | cons f calls ih =>
    have hstep : A.caller.step c f.forget = A.caller.step c f := by
      simp only [caller, call_forget]
    rw [List.map_cons, Transducer.run, Transducer.run, hstep]
    rcases A.caller.step c f with ⟨os, e | d⟩
    · rfl
    · simp only [ih]

lemma caller_run_chunks (A : Automaton) (c : Conf) (text : Text) :
    A.caller.run c (text.map (.tokenc .null)) =
      (text.map (.stringChunk : List UInt8 → UserCall δ), .ok c) := by
  induction text with
  | nil => rfl
  | cons bytes text ih =>
    rw [List.map_cons, Transducer.run_cons_ok _ (caller_step_ok.mpr rfl), ih]
    rfl

lemma caller_run_lexeme (A : Automaton) (c : Conf) (x : Lexeme δ) :
    A.caller.run c x.calls = A.machine.run c [x] := by
  rw [Transducer.run_singleton]
  cases x with
  | tok t | int v | double v => exact Transducer.run_singleton _ _ _
  | string text =>
    rw [Lexeme.calls]
    cases hs : afterString c.state with
    | none =>
      have hbegin : A.caller.step c (.tokencBegin .null : LexerCall δ) = ([], .error ()) := by
        simp [caller, call, hs]
      rw [List.cons_append, Transducer.run_cons_error _ hbegin]
      exact (machine_step_error (by simp [lexeme, hs])).symm
    | some state =>
      have hbegin : A.call c (.tokencBegin .null : LexerCall δ) = some ([.stringBegin], c) := by
        simp [call, hs]
      have hend : A.call c (.tokencEnd .null : LexerCall δ) =
          some ([.stringEnd], { c with state := state }) := by
        simp [call, hs]
      rw [List.cons_append, Transducer.run_cons_ok _ (caller_step_ok.mpr hbegin),
        Transducer.run_append_ok _ (caller_run_chunks A c text), Transducer.run_singleton,
        caller_step_ok.mpr hend]
      exact (machine_step_ok.mpr (by simp [lexeme, hs, Json.textCalls])).symm

lemma caller_run_lexemes (A : Automaton) (c : Conf) (ts : List (Lexeme δ)) :
    A.caller.run c (ts.flatMap Lexeme.calls) = A.machine.run c ts := by
  induction ts generalizing c with
  | nil => rfl
  | cons x ts ih =>
    have hx := caller_run_lexeme A c x
    rw [Transducer.run_singleton] at hx
    rw [List.flatMap_cons, Transducer.run]
    rcases hstep : A.machine.step c x with ⟨os, e | d⟩
    · exact Transducer.run_append_error _ (hx.trans hstep) _
    · rw [Transducer.run_append_ok _ (hx.trans hstep), ih]

end Automaton

section Runs

variable {c c' : Conf} {A : Automaton} {us os : List (UserCall δ)} {f : LexerCall δ}
  {calls : List (LexerCall δ)}

lemma call_opens (hopens : Opens p f) (h : A.call c f = some (us, c')) :
    c.stack.length ≠ A.capacity := by
  cases f with
  | token t position =>
    cases t with
    | openCurlyBracket | openBracket => exact (Automaton.openValue_eq_some h).2.1
    | _ => exact absurd hopens id
  | _ => exact absurd hopens id

lemma call_length (hle : c.stack.length ≤ A.capacity) (h : A.call c f = some (us, c')) :
    c'.stack.length ≤ A.capacity := by
  rw [call_nesting h]
  cases f with
  | token t position =>
    cases t with
    | openCurlyBracket | openBracket =>
      have hne := (Automaton.openValue_eq_some h).2.1
      simp only [nesting, List.length_cons]
      omega
    | closeCurlyBracket | closeBracket =>
      simp only [nesting, List.length_tail]
      omega
    | _ => exact hle
  | _ => exact hle

/-- The capacities that a stack which grows from zero can have. -/
inductive Grown (cfg : Config) : ℕ → Prop
  | zero : Grown cfg 0
  | grow {n : ℕ} (h : Grown cfg n) : Grown cfg (n + (cfg.growth n).length)

lemma Grows.grown {opens : Prop} (h : Grows cfg opens p q) (hp : Grown cfg p.stackCapacity) :
    Grown cfg q.stackCapacity := by
  rcases h.capacity with hq | ⟨-, -, hq⟩
  · rwa [hq]
  · rw [hq]
    exact hp.grow

/-- Some access has left the stack, or the number of its bits has left the 64 bits. -/
def Ruined (p : Parser) : Prop := p.broken = true ∨ 2 ^ 64 ≤ 8 * p.stackCapacity

lemma Grows.ruined {opens : Prop} (h : Grows cfg opens p q) (hp : Ruined p) : Ruined q := by
  rcases hp with hp | hp
  · exact .inl (h.broken hp)
  · have hle : p.stackCapacity ≤ q.stackCapacity := by
      rcases h.capacity with hq | ⟨-, -, hq⟩ <;> omega
    exact .inr (by omega)

lemma run_ruined (hrun : (parserMachine cfg).run p calls = (os, .ok q)) (hp : Ruined p) : Ruined q :=
  Transducer.run_invariant _ (P := fun _ _ t => Ruined t) hp
    (fun _ _ _ _ _ _ ht hstep => (parserStep_grows hstep).ruined ht) hrun

variable (hdynamic : cfg.dynamicStack = true) (hgrowth : ∀ n, cfg.growth n ≠ [])
  (hA : A.afterEmptyArray = .maybeObjectKey) {b b' : Bool}

include hdynamic hgrowth hA

/-- The automaton refuses a bracket for which there is no room. The property `P` of a parser and the
callbacks before it is kept by every step. -/
lemma Embodies.run_ok {limit : ℕ} {P : Parser → List (UserCall δ) → Prop}
    (hstep : ∀ {p q c c' f os history}, P p history → Embodies p c → Embodies q c' →
      A.call c f = some (quiet os, c') → parserStep cfg p f = (os, .ok q) → P q (history ++ os))
    (hcapacity : A.capacity = limit) (hlarge : limit < 2 ^ 64)
    (hlimit : ∀ n, Grown cfg n → 32 ≤ n → limit ≤ 8 * n) (h : Embodies p c)
    (hgrown : Grown cfg p.stackCapacity) (hle : c.stack.length ≤ A.capacity)
    (hphase : calls.foldlM phase b = some b') (hb : b = true → afterString c.state ≠ none)
    (hrun : A.caller.run c calls = (us, .ok c')) (history : List (UserCall δ)) (hp : P p history) :
    ∃ os q, (parserMachine cfg).run p calls = (os, .ok q) ∧ quiet os = us ∧ Embodies q c' ∧
      P q (history ++ os) := by
  induction calls generalizing p c b us history with
  | nil =>
    cases hrun
    exact ⟨[], p, rfl, rfl, h, by rwa [List.append_nil]⟩
  | cons f calls ih =>
    obtain ⟨vs, ws, d, hmachine, hrest, rfl⟩ := Transducer.run_cons_eq_ok _ hrun
    have hcall := Automaton.caller_step_ok.mp hmachine
    obtain ⟨e, hf, hphase⟩ := Option.bind_eq_some_iff.mp hphase
    have hroom : Roomy p f := by
      intro hopens
      have hne := call_opens hopens hcall
      have hsize := h.length
      refine ⟨?_, by omega⟩
      by_cases hsmall : p.stackCapacity < 32
      · exact .inl (by omega)
      · have hreach := hlimit _ hgrown (by omega)
        exact .inr (by omega)
    have hmove := h.step hdynamic hgrowth hA hb hf hroom fun hopens => call_opens hopens hcall
    rw [hcall] at hmove
    obtain ⟨ps, t, hfirst, rfl, ht⟩ := hmove
    obtain ⟨qs, q, hmore, rfl, hq, hP⟩ := ih ht ((parserStep_grows hfirst).grown hgrown)
      (call_length hle hcall) hphase (afterString_of_phase hf hcall hb) hrest (history ++ ps)
      (hstep hp h ht hcall hfirst)
    refine ⟨ps ++ qs, q, ?_, quiet_append _ _, hq, by rwa [← List.append_assoc]⟩
    rw [Transducer.run_cons_ok _ hfirst, hmore]

/-- An access that leaves the stack would show behind the last one. The property `P` of a parser and the
callbacks before it is kept by every step in bounds. -/
lemma Embodies.run_sound {P : Parser → List (UserCall δ) → Prop}
    (hstep : ∀ {p q c c' f os history}, P p history → Embodies p c → Embodies q c' →
      A.call c f = some (quiet os, c') → parserStep cfg p f = (os, .ok q) → P q (history ++ os))
    (hcapacity : A.capacity = 2 ^ 64) (h : Embodies p c)
    (hphase : calls.foldlM phase b = some b') (hb : b = true → afterString c.state ≠ none)
    (hrun : (parserMachine cfg).run p calls = (os, .ok q)) (hq : ¬Ruined q)
    (history : List (UserCall δ)) (hp : P p history) :
    ∃ c', A.caller.run c calls = (quiet os, .ok c') ∧ Embodies q c' ∧ P q (history ++ os) := by
  induction calls generalizing p c b os history with
  | nil =>
    cases hrun
    exact ⟨c, rfl, h, by rwa [List.append_nil]⟩
  | cons f calls ih =>
    obtain ⟨ps, qs, t, hfirst, hrest, rfl⟩ := Transducer.run_cons_eq_ok _ hrun
    obtain ⟨e, hf, hphase⟩ := Option.bind_eq_some_iff.mp hphase
    have ht : ¬Ruined t := fun ht => hq (run_ruined hrest ht)
    have hroom : Roomy p f := by
      have hbefore : ¬Ruined p := fun hp => ht ((parserStep_grows hfirst).ruined hp)
      obtain ⟨r, ho⟩ := observe_of_parserStep hfirst
      rw [Ruined, not_or, not_le] at hbefore
      rw [Ruined, not_or, Bool.not_eq_true] at ht
      exact roomy_of_accepted hdynamic h.stacked hbefore.2 ho ht.1
    have hsize : Opens p f → c.stack.length ≠ A.capacity := by
      intro hopens
      have hlt := (hroom hopens).2
      have hlength := h.length
      omega
    have hmove := h.step hdynamic hgrowth hA hb hf hroom hsize
    cases hcall : A.call c f with
    | none =>
      rw [hcall] at hmove
      obtain ⟨_, _, herror⟩ := hmove
      cases hfirst.symm.trans herror
    | some a =>
      obtain ⟨us, d⟩ := a
      rw [hcall] at hmove
      obtain ⟨_, _, hok, rfl, hd⟩ := hmove
      cases hfirst.symm.trans hok
      obtain ⟨c', hmore, hc', hP⟩ := ih hd hphase (afterString_of_phase hf hcall hb) hrest
        (history ++ ps) (hstep hp h hd hcall hfirst)
      refine ⟨c', ?_, hc', by rwa [← List.append_assoc]⟩
      rw [Transducer.run_cons_ok _ (Automaton.caller_step_ok.mpr hcall), hmore, quiet_append]

end Runs

end Embedjson
