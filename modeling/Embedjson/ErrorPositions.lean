import Embedjson.EventProtocol
import Embedjson.Lexer.Departures
import Embedjson.Parser.Chunking

namespace Embedjson

open Foundations Foundations.Program

variable {δ : Type} {cfg : Config} {p q : Parser} {position : Pointer}

section Reports

def LexerCall.pointer : LexerCall δ → Pointer
  | token _ position | tokeni _ position | tokenf _ position | tokencBegin position
  | tokencEnd position | tokenbnBegin position _ | tokenbnEnd position | errorEx _ position
  | tokenc position _ | tokenbn position _ => position

def UserCall.At (position : Pointer) (u : UserCall δ) : Prop :=
  ∀ code at_, u = .error code at_ → at_ = .null ∨ at_ = position

abbrev ErrsAt (position : Pointer) : ParserProgram δ → Prop :=
  Allows (UserCall.At position) fun _ => True

variable {u : UserCall δ} {k : ParserProgram δ}

lemma UserCall.at_of_not_error (h : u.isError = false) : u.At position := by
  rintro code at_ rfl
  cases h

namespace ErrsAt

lemma ite {c : Prop} [Decidable c] {m : ParserProgram δ} (hk : ErrsAt position k)
    (hm : ErrsAt position m) : ErrsAt position (if c then k else m) := by
  by_cases h : c
  · rwa [if_pos h]
  · rwa [if_neg h]

lemma succeed : ErrsAt position (succeed p : ParserProgram δ) := trivial

lemma returnCall (hu : u.isError = false) : ErrsAt position (returnCall u p) :=
  ⟨UserCall.at_of_not_error hu, fun _ => trivial⟩

lemma returnErrorEx (code : ErrorCode) :
    ErrsAt position (returnErrorEx p code position : ParserProgram δ) := by
  refine ⟨fun code' at_ h => ?_, fun _ => trivial⟩
  cases h
  exact .inr rfl

lemma returnIf (hu : u.isError = false) (hk : ErrsAt position k) :
    ErrsAt position (p.returnIf u k) :=
  ⟨UserCall.at_of_not_error hu, fun r => ite (c := r ≠ 0) (k := .done (r, p)) trivial hk⟩

lemma checkState (hk : ErrsAt position k) : ErrsAt position (checkState cfg p position k) :=
  ite (returnErrorEx _) hk

lemma stackPush (value : StackValue) : ErrsAt position (stackPush cfg p value : ParserProgram δ) := by
  have hnull : ErrsAt position (Embedjson.returnCall (.error .stackOverflow .null) p :
      ParserProgram δ) := by
    refine ⟨fun code at_ h => ?_, fun _ => trivial⟩
    cases h
    exact .inl rfl
  exact ite (ite (returnIf rfl succeed) hnull) succeed

lemma openContainer (hu : u.isError = false) {value : StackValue} {s : ParserState} :
    ErrsAt position (openContainer cfg p value u s) :=
  (stackPush value).bind fun _ _ => ite trivial (returnIf hu succeed)

lemma closeContainer (hu : u.isError = false) {value : StackValue} {underCurly : ParserState} :
    ErrsAt position (closeContainer cfg p value u underCurly position) :=
  ite (returnErrorEx _) (returnIf hu succeed)

lemma valueToken (token : Tok) {s : ParserState} (hk : ErrsAt position k) :
    ErrsAt position (valueToken cfg p token position s k) := by
  cases token with
  | openCurlyBracket | openBracket => exact openContainer rfl
  | closeBracket => exact hk
  | closeCurlyBracket | comma | colon => exact returnErrorEx _
  | true | false | null => exact returnIf rfl succeed

lemma embedjsonToken (token : Tok) :
    ErrsAt position (embedjsonToken cfg p token position : ParserProgram δ) := by
  rw [Embedjson.embedjsonToken]
  cases p.state with
  | expectValue | expectObjectValue | expectArrayValue => exact valueToken token (returnErrorEx _)
  | maybeArrayValue => exact valueToken token (closeContainer rfl)
  | maybeObjectKey => exact ite (closeContainer rfl) (returnErrorEx _)
  | expectObjectKey | done => exact returnErrorEx _
  | expectColon => exact ite (returnErrorEx _) succeed
  | maybeObjectComma | maybeArrayComma =>
    exact ite succeed (ite (closeContainer rfl) (returnErrorEx _))
  | invalid => exact ite (returnErrorEx _) succeed

lemma numberToken (hu : u.isError = false) : ErrsAt position (numberToken cfg p u position) := by
  rw [Embedjson.numberToken]
  cases p.state with
  | expectValue | expectObjectValue | maybeArrayValue | expectArrayValue => exact returnCall hu
  | invalid => exact ite (returnErrorEx _) succeed
  | _ => exact returnErrorEx _

lemma embedjsonTokencBegin :
    ErrsAt position (embedjsonTokencBegin cfg p position : ParserProgram δ) := by
  rw [Embedjson.embedjsonTokencBegin]
  cases p.state with
  | expectValue | maybeObjectKey | expectObjectKey | expectObjectValue | maybeArrayValue
  | expectArrayValue => exact returnCall rfl
  | invalid => exact ite (returnErrorEx _) succeed
  | _ => exact returnErrorEx _

lemma endToken (table : ParserState → Option ParserState) (hu : u.isError = false) :
    ErrsAt position (endToken cfg table u p position) :=
  checkState (checkState (returnCall hu))

end ErrsAt

lemma onLexerCall_errsAt (cfg : Config) (f : LexerCall δ) (p : Parser) :
    ErrsAt f.pointer (onLexerCall cfg f p) := by
  cases f with
  | token token position => exact .embedjsonToken token
  | tokenc data bytes | tokenbn data bytes => exact .checkState (.returnCall rfl)
  | tokeni value position | tokenf value position | tokenbnBegin position value =>
    exact .numberToken rfl
  | tokencBegin position => exact .embedjsonTokencBegin
  | tokencEnd position | tokenbnEnd position => exact .endToken _ rfl
  | errorEx code position => exact .returnErrorEx code

end Reports

section Lexer

def Pointer.Within (size : ℕ) (position : Pointer) : Prop :=
  ∃ i, position = .buffer i ∧ 0 ≤ i ∧ i < size

def LexerCall.Within (size : ℕ) (f : LexerCall δ) : Prop :=
  ∀ position ∈ f.position, position.Within size

def UserCall.Within (size : ℕ) (u : UserCall δ) : Prop :=
  ∀ code position, u = .error code position → position ≠ .null → position.Within size

/-- A debug build refuses the bytes of an escape, at their own address. -/
def refusesEscape (cfg : Config) : LexerCall δ → Parser → Bool
  | .tokenc .scratch _, p => cfg.debug && p.state = .invalid
  | _, _ => false

lemma refusesEscape_of_release (hdebug : cfg.debug = false) (f : LexerCall δ) (p : Parser) :
    refusesEscape cfg f p = false := by
  rw [refusesEscape.eq_def]
  split
  · rw [hdebug, Bool.false_and]
  · rfl

lemma onLexerCall_within {size : ℕ} {f : LexerCall δ} (hf : f.Within size)
    (hraw : ∀ data bytes, f.raw = some (data, bytes) → data.Within size)
    (hescape : refusesEscape cfg f p = false) :
    Allows (UserCall.Within size) (fun _ => True) (onLexerCall cfg f p) := by
  have hreports (hpointer : f.pointer.Within size) :
      Allows (UserCall.Within size) (fun _ => True) (onLexerCall cfg f p) := by
    refine (onLexerCall_errsAt cfg f p).mono (fun u hu code at_ herror hne => ?_) fun _ h => h
    rcases hu code at_ herror with rfl | rfl
    · exact absurd rfl hne
    · exact hpointer
  cases f with
  | tokenc data bytes =>
    cases data with
    | scratch =>
      have hpass : ¬(cfg.debug = true ∧ p.state = .invalid) := by
        rw [refusesEscape, Bool.and_eq_false_iff, decide_eq_false_iff_not] at hescape
        exact fun h => hescape.elim (fun hdebug => by simp [h.1] at hdebug) fun hs => hs h.2
      rw [onLexerCall, embedjsonTokenc, checkState, if_neg hpass]
      refine ⟨fun code at_ herror => ?_, fun _ => trivial⟩
      cases herror
    | null | buffer i => exact hreports (hraw _ _ rfl)
  | tokenbn data bytes => exact hreports (hraw _ _ rfl)
  | _ => exact hreports (hf _ rfl)

variable [DoubleArith δ] {chunk : List UInt8} {c : Cursor}

/-- A loop hands over positions in the buffer, unless it begins with a byte that ends a number. -/
lemma loop_within (fuel : ℕ) (h₀ : 0 ≤ c.data)
    (hfirst : c.data = 0 → ∀ b, deref chunk c.data = some b → c.lex.endsNumber b = false) :
    Allows (LexerCall.Within chunk.length) (fun _ => True)
      (loop cfg chunk fuel c : Program (LexerCall δ) _) := by
  induction fuel generalizing c with
  | zero => trivial
  | succ fuel ih =>
    by_cases hend : c.data = chunk.length
    · rw [loop, if_pos hend]
      trivial
    cases hb : deref chunk c.data with
    | none =>
      rw [loop, if_neg hend, hb]
      trivial
    | some b =>
      rw [loop_eq hend hb]
      have hbehind (hends : c.lex.endsNumber b = true) : 0 < c.data := by
        refine lt_of_le_of_ne h₀ fun hzero => ?_
        rw [hfirst hzero.symm b hb] at hends
        cases hends
      have hdispatch : Departs (δ := δ) { c with lex := recordMagic c.lex b } b _ :=
        dispatch_departs cfg chunk _ b
      refine (hdispatch.mono (fun f hf position hposition => ?_) fun _ h => h).bind fun r hr => ?_
      · rcases hf position hposition with rfl | ⟨hends, rfl⟩
        · exact ⟨c.data, rfl, h₀, deref_lt hb⟩
        · rw [recordMagic_endsNumber] at hends
          have hpos := hbehind hends
          have hlen := deref_lt hb
          exact ⟨c.data - 1, rfl, sub_nonneg.mpr hpos, by omega⟩
      · rcases r with r | c'
        · trivial
        · rcases hr with hdata | ⟨-, hs, hdata⟩
          · have hnext : c'.next.data = c.data + 1 := congrArg (· + 1) hdata
            exact ih (c := c'.next) (by omega) fun hzero => by omega
          · have hnext : c'.next.data = c.data - 1 + 1 := congrArg (· + 1) hdata
            exact ih (c := c'.next) (by omega) fun _ b' _ => endsNumber_lookupToken hs b'

omit [DoubleArith δ] in
lemma afterLoop_within (chunk : List UInt8) (lexer : Lexer) (r : Option (Flow Cursor)) :
    Allows (LexerCall.Within chunk.length) (fun _ => True)
      (afterLoop (δ := δ) chunk lexer r) := by
  rcases r with _ | r | c
  · trivial
  · trivial
  · have hflush (g : Pointer → List UInt8 → LexerCall δ)
        (hg : ∀ data bytes, (g data bytes).position = none) :
        Allows (LexerCall.Within chunk.length) (fun _ => True)
          (flush g chunk c (fallThrough c.lex)) := by
      rw [flush]
      split_ifs
      · refine ⟨fun position hposition => ?_, fun r => ?_⟩
        · rw [hg] at hposition
          cases hposition
        · change Allows _ _ (if r ≠ 0 then _ else _)
          split_ifs <;> trivial
      · trivial
    have hend : Allows (LexerCall.Within chunk.length) (fun _ => True)
        (flushEnd (δ := δ) chunk c) := by
      rw [flushEnd]
      cases c.lex.state with
      | inString | inBigNumber => exact hflush _ fun _ _ => rfl
      | _ => trivial
    refine hend.bind fun r _ => ?_
    cases r <;> trivial

/-- The number that a push with its first byte ends. -/
def EndOfNumber (lexer : Lexer) (f : LexerCall δ) : Prop :=
  if lexer.state = .inBigNumber then f = .tokenbnEnd (.buffer (-1))
  else (∃ v, f = .tokeni v (.buffer (-1))) ∨ ∃ v, f = .tokenf v (.buffer (-1))

variable (cfg chunk) in
lemma dispatch_endOfNumber {b : UInt8} (hends : c.lex.endsNumber b = true) (hdata : c.data = 0)
    (hbegin : c.lex.state = .inBigNumber → c.stringChunkBegin = .buffer 0) :
    ∃ f c', EndOfNumber c.lex f ∧ c'.lex.state = .lookupToken ∧ c'.data = -1 ∧
      (dispatch cfg chunk c b : LexerProgram δ Cursor) = returnIf f (fallThrough c') := by
  have hbefore : c.data - 1 = -1 := by rw [hdata]; rfl
  have hint (v : ℤ) (hs : c.lex.state ≠ .inBigNumber) :
      EndOfNumber (δ := δ) c.lex (.tokeni v (.buffer (c.data - 1))) := by
    rw [EndOfNumber, if_neg hs, hbefore]
    exact .inl ⟨v, rfl⟩
  have hdouble (v : δ) (hs : c.lex.state ≠ .inBigNumber) :
      EndOfNumber c.lex (.tokenf v (.buffer (c.data - 1))) := by
    rw [EndOfNumber, if_neg hs, hbefore]
    exact .inr ⟨v, rfl⟩
  rw [Lexer.endsNumber] at hends
  cases hs : c.lex.state with
  | inNumber =>
    simp only [hs, Bool.and_eq_true, Bool.not_eq_true', decide_eq_true_eq, decide_eq_false_iff_not]
      at hends
    obtain ⟨⟨hdigit, hpoint⟩, hexp⟩ := hends
    refine ⟨_, { c with
        data := c.data - 1
        lex := { c.lex with intValue := 0, minus := false, state := .lookupToken } },
      hint (signedInt cfg c.lex) (by rw [hs]; decide), rfl, hbefore, ?_⟩
    rw [dispatch, hs]
    dsimp only
    rw [inNumber, if_neg (by simp [hdigit]), if_neg hpoint, if_neg hexp]
    rfl
  | inNumberFrac =>
    simp only [hs, Bool.and_eq_true, Bool.not_eq_true', decide_eq_true_eq, decide_eq_false_iff_not]
      at hends
    obtain ⟨⟨hdigit, hexp⟩, hempty⟩ := hends
    refine ⟨_, { c with
        data := c.data - 1
        lex := { c.lex with
          intValue := 0, fracPower := 0, fracValue := 0, minus := false, state := .lookupToken } },
      hdouble (negateIf c.lex.minus (fracDouble c.lex)) (by rw [hs]; decide), rfl, hbefore, ?_⟩
    rw [dispatch, hs]
    dsimp only
    rw [inNumberFrac, if_neg (by simp [hdigit]), if_neg hexp, if_neg hempty]
    rfl
  | inNumberExp =>
    simp only [hs, Bool.and_eq_true, Bool.not_eq_true'] at hends
    obtain ⟨hdigit, hempty⟩ := hends
    refine ⟨_, { c with data := c.data - 1, lex := resetNumber c.lex },
      hdouble (negateIf c.lex.minus (scaleByExp c.lex (fracDouble c.lex))) (by rw [hs]; decide), rfl,
      hbefore, ?_⟩
    rw [dispatch, hs]
    dsimp only
    rw [inNumberExp, if_neg (by simp [hdigit]), if_neg (by simp [hempty])]
    rfl
  | inBigNumber =>
    simp only [hs, Bool.not_eq_true', decide_eq_false_iff_not] at hends
    refine ⟨.tokenbnEnd (.buffer (c.data - 1)),
      { c with data := c.data - 1, lex := resetNumber c.lex },
      by rw [EndOfNumber, if_pos hs, hbefore], rfl, hbefore, ?_⟩
    rw [dispatch, hs]
    dsimp only
    rw [inBigNumber, if_neg hends, flush, if_neg]
    rw [hbegin hs, Cursor.position, hdata]
    exact not_not_intro rfl
  | _ =>
    rw [hs] at hends
    cases hends

/-- A push whose first byte ends a number hands it over first, and nothing else in front of the
buffer. -/
lemma push_endOfNumber (cfg : Config) {lexer : Lexer} {b : UInt8} (rest : List UInt8)
    (hends : lexer.endsNumber b = true) :
    ∃ f next, EndOfNumber lexer f ∧
      embedjsonLexerPush (δ := δ) cfg (b :: rest) lexer = .call f next ∧
      ∀ r, Allows (LexerCall.Within (b :: rest).length) (fun _ => True)
        (next r) := by
  obtain ⟨k, hk⟩ : ∃ k, 2 * (b :: rest).length + 1 = k + 1 := ⟨_, rfl⟩
  have hdata : (start lexer).data ≠ (b :: rest).length := by
    change (0 : ℤ) ≠ ((rest.length + 1 : ℕ) : ℤ)
    omega
  obtain ⟨f, c', hf, hs, hdata', hdispatch⟩ := dispatch_endOfNumber (δ := δ) cfg (b :: rest)
    (c := { start lexer with lex := recordMagic lexer b }) (b := b)
    (by rw [recordMagic_endsNumber, hends]) rfl fun hs => if_pos (.inr (by simpa using hs))
  have hpush : embedjsonLexerPush (δ := δ) cfg (b :: rest) lexer =
      ((dispatch cfg (b :: rest) { start lexer with lex := recordMagic lexer b } b).bind
        (afterDispatch cfg (b :: rest) k)).bind (afterLoop (b :: rest) lexer) := by
    rw [embedjsonLexerPush_eq, hk, loop_eq (b := b) hdata rfl]
    rfl
  rw [hdispatch] at hpush
  refine ⟨f, _, by rwa [EndOfNumber, recordMagic_state] at hf, hpush, fun r => ?_⟩
  refine Allows.bind (Q := fun _ => True) ?_ fun r _ => afterLoop_within (b :: rest) lexer r
  dsimp only
  by_cases hr : r ≠ 0
  · rw [if_pos hr]
    trivial
  · rw [if_neg hr]
    refine loop_within (c := c'.next) k ?_ fun _ b' _ => endsNumber_lookupToken hs b'
    change 0 ≤ c'.data + 1
    omega

end Lexer

section Numbers

def refusesToken (cfg : Config) (p : Parser) : Bool :=
  match p.state with
  | .expectValue | .expectObjectValue | .maybeArrayValue | .expectArrayValue => false
  | .invalid => cfg.debug
  | _ => true

/-- A debug build refuses the end of the big number. -/
def refusesEnd (cfg : Config) (p : Parser) : Bool :=
  cfg.debug && (p.state = .invalid || bignumNextState p.state = some .invalid)

def refusesNumber (cfg : Config) (p : Parser) : Bool :=
  if p.lexer.state = .inBigNumber then refusesEnd cfg p else refusesToken cfg p

variable {f : LexerCall δ}

lemma numberToken_refusesToken (h : refusesToken cfg p = true) (u : UserCall δ) (position : Pointer) :
    ∃ code next, numberToken cfg p u position = .call (.error code position) next := by
  rw [refusesToken] at h
  rw [numberToken]
  cases hs : p.state <;> rw [hs] at h <;>
    first | exact ⟨_, _, rfl⟩ | exact ⟨_, _, if_pos h⟩ | cases h

lemma numberToken_acceptsToken (h : refusesToken cfg p = false) {u : UserCall δ} (hu : u.isError = false)
    (position : Pointer) : ErrsAt .null (numberToken cfg p u position) := by
  rw [refusesToken] at h
  rw [numberToken]
  cases hs : p.state <;> rw [hs] at h <;>
    first | exact .returnCall hu | cases h | skip
  dsimp only at h ⊢
  rw [h, if_neg Bool.false_ne_true]
  exact .succeed

lemma lookupNextState_state (table : ParserState → Option ParserState) :
    (lookupNextState table p).state = (table p.state).getD p.state := by
  rw [lookupNextState]
  cases table p.state <;> rfl

lemma endToken_refusesEnd (h : refusesEnd cfg p = true) (u : UserCall δ) (position : Pointer) :
    ∃ code next, endToken cfg bignumNextState u p position = .call (.error code position) next := by
  rw [refusesEnd, Bool.and_eq_true, Bool.or_eq_true, decide_eq_true_eq, decide_eq_true_eq] at h
  obtain ⟨hdebug, hstate⟩ := h
  rw [endToken, checkState]
  by_cases hinvalid : p.state = .invalid
  · rw [if_pos ⟨hdebug, hinvalid⟩]
    exact ⟨_, _, rfl⟩
  · rw [if_neg fun h => hinvalid h.2, checkState, if_pos]
    · exact ⟨_, _, rfl⟩
    · rw [lookupNextState_state, hstate.resolve_left hinvalid]
      exact ⟨hdebug, rfl⟩

lemma endToken_acceptsEnd (h : refusesEnd cfg p = false) {u : UserCall δ} (hu : u.isError = false)
    (position : Pointer) : ErrsAt .null (endToken cfg bignumNextState u p position) := by
  have hpass (q : Parser) (hq : cfg.debug = true → q.state ≠ .invalid) (k : ParserProgram δ) :
      checkState cfg q position k = k := if_neg fun h => hq h.1 h.2
  have hnot (hdebug : cfg.debug = true) :
      p.state ≠ .invalid ∧ bignumNextState p.state ≠ some .invalid := by
    rw [refusesEnd, hdebug, Bool.true_and, Bool.or_eq_false_iff, decide_eq_false_iff_not,
      decide_eq_false_iff_not] at h
    exact h
  rw [endToken, hpass p fun hdebug => (hnot hdebug).1, hpass]
  · exact .returnCall hu
  · intro hdebug
    rw [lookupNextState_state]
    cases hnext : bignumNextState p.state with
    | none => exact (hnot hdebug).1
    | some state =>
      rintro rfl
      exact (hnot hdebug).2 hnext

lemma endOfNumber_refused (hf : EndOfNumber p.lexer f) (h : refusesNumber cfg p = true) :
    ∃ code next, onLexerCall cfg f p = .call (.error code (.buffer (-1))) next := by
  rw [EndOfNumber] at hf
  rw [refusesNumber] at h
  split_ifs at hf h with hs
  · subst hf
    exact endToken_refusesEnd h _ _
  · obtain ⟨v, rfl⟩ | ⟨v, rfl⟩ := hf
    · exact numberToken_refusesToken h _ _
    · exact numberToken_refusesToken h _ _

lemma endOfNumber_accepted (hf : EndOfNumber p.lexer f) (h : refusesNumber cfg p = false) :
    ErrsAt .null (onLexerCall cfg f p) := by
  rw [EndOfNumber] at hf
  rw [refusesNumber] at h
  split_ifs at hf h with hs
  · subst hf
    exact endToken_acceptsEnd h rfl _
  · obtain ⟨v, rfl⟩ | ⟨v, rfl⟩ := hf
    · exact numberToken_acceptsToken h rfl _
    · exact numberToken_acceptsToken h rfl _

end Numbers

section Pushes

variable [DoubleArith δ] {chunk : List UInt8}

/-- The first byte of the chunk ends a number that the parser refuses. -/
def refusesFirst (cfg : Config) (p : Parser) : List UInt8 → Bool
  | [] => false
  | b :: _ => p.lexer.endsNumber b && refusesNumber cfg p

lemma push_refusesFirst (h : refusesFirst cfg p chunk = true) :
    ∃ code next, (embedjsonPush cfg p chunk : ParserProgram δ) =
      .call (.error code (.buffer (-1))) next := by
  cases chunk with
  | nil => cases h
  | cons b rest =>
    obtain ⟨hends, hrefuses⟩ := Bool.and_eq_true_iff.mp h
    obtain ⟨f, next, hf, hpush, -⟩ := push_endOfNumber (δ := δ) cfg rest hends
    obtain ⟨code, next', hcall⟩ := endOfNumber_refused hf hrefuses
    rw [embedjsonPush, hpush, interpret, hcall]
    exact ⟨code, _, rfl⟩

/-- The calls of the lexer in a push, each with the parser in front of it. -/
def handledCalls (cfg : Config) (answer : List (UserCall δ) → UserCall δ → ℤ) (p : Parser)
    (chunk : List UInt8) (history : List (UserCall δ)) : List (LexerCall δ × Parser) :=
  handled (onLexerCall cfg) answer (embedjsonLexerPush cfg chunk p.lexer) p history

variable {answer : List (UserCall δ) → UserCall δ → ℤ} {history : List (UserCall δ)}

lemma embedjsonPush_calls :
    (run answer (embedjsonPush cfg p chunk) history).1 =
      (run answer (interpret (onLexerCall cfg) (embedjsonLexerPush cfg chunk p.lexer) p) history).1 := by
  rw [embedjsonPush, run_bind]
  exact List.append_nil _

lemma handledCalls_raw {y : LexerCall δ × Parser} (hy : y ∈ handledCalls cfg answer p chunk history)
    {data : Pointer} {bytes : List UInt8} (hraw : y.1.raw = some (data, bytes)) :
    data.Within chunk.length := by
  obtain ⟨high, -, -, hplaced, hsound, -⟩ := embedjsonLexerPush_emits (δ := δ) cfg p.lexer chunk
  have hprefix : (handledCalls cfg answer p chunk history).map Prod.fst <+:
      (observe LexerCall.isError (embedjsonLexerPush (δ := δ) cfg chunk p.lexer)).1 :=
    (embedjsonLexerPush_endsAt p.lexer).handled_isPrefix (embedjsonLexerPush_failsFast p.lexer)
  have hmem := hprefix.subset (List.mem_map_of_mem hy)
  obtain ⟨i, rfl, hlength, -⟩ := (hplaced.parts le_rfl hsound).1.inside _ hmem data bytes hraw
  have hpos := List.length_pos_iff.mpr ((hsound _ hmem).raw_ne_nil hraw)
  exact ⟨i, rfl, Int.natCast_nonneg _, by omega⟩

lemma push_within (h : refusesFirst cfg p chunk = false)
    (hescape : ∀ y ∈ handledCalls cfg answer p chunk history, refusesEscape cfg y.1 y.2 = false) :
    ∀ u ∈ (run answer (embedjsonPush cfg p chunk) history).1, u.Within chunk.length := by
  rw [embedjsonPush_calls]
  refine run_interpret_forall fun y hy history' => ?_
  have hcall (hf : y.1.Within chunk.length) :
      ∀ u ∈ (run answer (onLexerCall cfg y.1 y.2) history').1, u.Within chunk.length :=
    ((onLexerCall_within hf (fun _ _ => handledCalls_raw hy) (hescape y hy)).run answer history').1
  -- A first byte that does not end a number leaves nothing in front of the buffer.
  have hwithin (hfirst : ∀ b, deref chunk 0 = some b → p.lexer.endsNumber b = false) :
      y.1.Within chunk.length := by
    have hlexer : Allows (LexerCall.Within chunk.length) (fun _ => True)
        (embedjsonLexerPush (δ := δ) cfg chunk p.lexer) := by
      rw [embedjsonLexerPush_eq]
      exact (loop_within (c := start p.lexer) _ le_rfl fun _ => hfirst).bind fun r _ =>
        afterLoop_within chunk p.lexer r
    exact hlexer.handled y hy
  cases chunk with
  | nil => exact hcall (hwithin fun b hb => by cases hb)
  | cons b rest =>
    by_cases hends : p.lexer.endsNumber b = true
    · have haccepts : refusesNumber cfg p = false := by
        rwa [refusesFirst, hends, Bool.true_and] at h
      obtain ⟨f, next, hf, hpush, hnext⟩ := push_endOfNumber (δ := δ) cfg rest hends
      rw [hpush] at hy
      rcases List.mem_cons.mp hy with rfl | hlater
      · refine fun u hu code at_ herror hne => ?_
        have hnull := ((endOfNumber_accepted hf haccepts).run answer history').1 u hu code at_ herror
        exact absurd (or_self_iff.mp hnull) hne
      · exact hcall ((hnext _).handled y hlater)
    · refine hcall (hwithin fun b' hb' => ?_)
      cases hb'
      exact Bool.eq_false_iff.mpr hends

lemma push_refusesEscape {y : LexerCall δ × Parser} (hy : y ∈ handledCalls cfg answer p chunk history)
    (h : refusesEscape cfg y.1 y.2 = true) :
    ∃ code, .error code .scratch ∈ (run answer (embedjsonPush cfg p chunk) history).1 := by
  rw [embedjsonPush_calls]
  obtain ⟨history', hsubset⟩ := handled_subset hy
  rcases y with ⟨f, q⟩
  cases f with
  | tokenc data bytes =>
    cases data with
    | scratch =>
      rw [refusesEscape, Bool.and_eq_true, decide_eq_true_eq] at h
      rw [onLexerCall, embedjsonTokenc, checkState, if_pos h] at hsubset
      exact ⟨_, hsubset List.mem_cons_self⟩
    | null | buffer i => cases h
  | _ => cases h

/-- One push of an application: the parser in front of it, the chunk, the calls of the lexer in it
and the calls that it makes. -/
structure PushRun (δ : Type) where
  before : Parser
  chunk : List UInt8
  handled : List (LexerCall δ × Parser)
  calls : List (UserCall δ)

/-- The pushes up to the first non-zero result. -/
def pushRuns (cfg : Config) (answer : List (UserCall δ) → UserCall δ → ℤ) :
    Parser → List (UserCall δ) → List (List UInt8) → List (PushRun δ)
  | _, _, [] => []
  | p, history, chunk :: chunks =>
    let x := run answer (embedjsonPush cfg p chunk) history
    ⟨p, chunk, handledCalls cfg answer p chunk history, x.1⟩ ::
      if x.2.1 ≠ 0 then [] else pushRuns cfg answer x.2.2 (history ++ x.1) chunks

variable {chunks : List (List UInt8)}

lemma pushRuns_calls (answer : List (UserCall δ) → UserCall δ → ℤ) (p : Parser)
    (history : List (UserCall δ)) (chunks : List (List UInt8)) :
    (pushRuns cfg answer p history chunks).flatMap PushRun.calls =
      (run answer (pushAll cfg p chunks) history).1 := by
  induction chunks generalizing p history with
  | nil => rfl
  | cons chunk chunks ih =>
    rw [pushRuns, pushAll, run_bind]
    dsimp only
    rw [List.flatMap_cons]
    split_ifs with h
    · rfl
    · rw [ih]

lemma mem_pushRuns {x : PushRun δ} (hx : x ∈ pushRuns cfg answer p history chunks) :
    ∃ before, x.calls = (run answer (embedjsonPush cfg x.before x.chunk) before).1 ∧
      x.handled = handledCalls cfg answer x.before x.chunk before := by
  induction chunks generalizing p history with
  | nil => cases hx
  | cons chunk chunks ih =>
    rw [pushRuns] at hx
    rcases List.mem_cons.mp hx with rfl | hx
    · exact ⟨history, rfl, rfl⟩
    · split_ifs at hx with h
      · cases hx
      · exact ih hx

/-- The errors of an application's pushes have positions in the buffers if and only if no push begins
with a byte that ends a number which the parser refuses, and no escape is refused. -/
theorem error_positions_iff (cfg : Config) (answer : List (UserCall δ) → UserCall δ → ℤ)
    (chunks : List (List UInt8)) :
    (∀ x ∈ pushRuns cfg answer (.zero cfg) [] chunks, ∀ u ∈ x.calls, u.Within x.chunk.length) ↔
      ∀ x ∈ pushRuns cfg answer (.zero cfg) [] chunks, refusesFirst cfg x.before x.chunk = false ∧
        ∀ y ∈ x.handled, refusesEscape cfg y.1 y.2 = false := by
  refine forall₂_congr fun x hx => ?_
  obtain ⟨before, hcalls, hhandled⟩ := mem_pushRuns hx
  rw [hcalls, hhandled]
  refine ⟨fun h => ⟨?_, fun y hy => ?_⟩, fun h => push_within h.1 h.2⟩
  · by_contra hrefuses
    obtain ⟨code, next, hpush⟩ := push_refusesFirst (δ := δ) (Bool.not_eq_false _ ▸ hrefuses)
    rw [hpush, run] at h
    obtain ⟨i, hi, hpos, -⟩ := h (.error code (.buffer (-1))) List.mem_cons_self code _ rfl (by decide)
    cases hi
    exact absurd hpos (by decide)
  · by_contra hrefuses
    obtain ⟨code, hmem⟩ := push_refusesEscape hy (Bool.not_eq_false _ ▸ hrefuses)
    obtain ⟨i, hi, -⟩ := h _ hmem code .scratch rfl (by decide)
    cases hi

end Pushes

/-- The second number of `1 2 `, byte by byte. -/
theorem number_refused_before_buffer :
    ∃ x ∈ pushRuns (δ := ℚ) .default (accept UserCall.isError) (.zero .default) []
        [['1'.toUInt8], [' '.toUInt8], ['2'.toUInt8], [' '.toUInt8]],
      x.chunk = [' '.toUInt8] ∧ x.calls = [.error .excessiveInput (.buffer (-1))] :=
  ⟨_, .tail _ (.tail _ (.tail _ (.head _))), rfl, by decide⟩

-- Where errors are ignored, a debug build refuses the escape of the last string in this text.
example : ∃ x ∈ pushRuns (δ := ℚ) { Config.default with debug := true } (fun _ _ => 0)
    (.zero .default) [] ["\x7b\"\"\"\"\"\\n".toList.map Char.toUInt8],
    .error .internalError .scratch ∈ x.calls :=
  ⟨_, .head _, by decide⟩

/-- The bracket ends a number that is accepted, and is then refused at its own place. -/
theorem error_positions_iff_bracket :
    ∃ x ∈ pushRuns (δ := ℚ) .default (accept UserCall.isError) (.zero .default) []
        [['['.toUInt8, '1'.toUInt8], ['\x7d'.toUInt8]],
      x.calls = [.int 1, .error .expCommaOrCloseBracket (.buffer 0)] ∧
        ∀ u ∈ x.calls, u.Within x.chunk.length := by
  have hwithin : ∀ x ∈ pushRuns (δ := ℚ) .default (accept UserCall.isError) (.zero .default) []
      [['['.toUInt8, '1'.toUInt8], ['\x7d'.toUInt8]], ∀ u ∈ x.calls, u.Within x.chunk.length :=
    (error_positions_iff _ _ _).mpr (by decide)
  exact ⟨_, .tail _ (.head _), by decide, hwithin _ (.tail _ (.head _))⟩

end Embedjson
