import Embedjson.DynamicStack
import Embedjson.Lexer.Chunking

namespace Embedjson

open Foundations Foundations.Program

variable {δ : Type} {cfg : Config} {p q : Parser} {s : List StackValue} {f : LexerCall δ}
  {us : List (UserCall δ)} {r : ℤ}

/-- The open brackets `s` are on the stack, unless the parser is in the state that it never leaves. -/
def Tracks (cfg : Config) (p : Parser) (s : List StackValue) : Prop :=
  p.state = .invalid ∨ Represents cfg p ⟨p.state, s⟩ ∧ Conf.Wf ⟨p.state, s⟩

section Steps

lemma observe_returnCall {u : UserCall δ} (hu : u.isError = false) (p : Parser) :
    observe UserCall.isError (returnCall u p) = ([u], some (0, p)) := by
  rw [returnCall, observe_call_of_notMem hu]
  rfl

lemma observe_checkState {position : Pointer} {k : ParserProgram δ}
    (h : observe UserCall.isError (checkState cfg p position k) = (us, some (r, q))) :
    observe UserCall.isError k = (us, some (r, q)) := by
  rw [checkState] at h
  split_ifs at h
  · cases h
  · exact h

lemma Automaton.call_stack {A : Automaton} {c c' : Conf} (h : A.call c f = some (us, c')) :
    c'.stack = nesting c.stack f := by
  have hprimitive {u : UserCall δ} (h : primitive c u = some (us, c')) : c'.stack = c.stack := by
    obtain ⟨state, -, heq⟩ := Option.map_eq_some_iff.mp h
    cases heq
    rfl
  cases f with
  | token t position =>
    cases t with
    | openCurlyBracket | openBracket =>
      obtain ⟨-, -, -, rfl⟩ := openValue_eq_some h
      rfl
    | closeCurlyBracket | closeBracket | comma | colon =>
      obtain ⟨state, stack⟩ := c
      cases state <;> cases h <;> rfl
    | true | false | null => exact hprimitive h
  | tokenc data bytes => cases h; rfl
  | tokeni v position | tokenf v position => exact hprimitive h
  | tokencBegin position | tokencEnd position =>
    obtain ⟨state, -, heq⟩ := Option.map_eq_some_iff.mp h
    cases heq
    rfl
  | _ => cases h

lemma Implements.tracks {m : ParserProgram δ} {move : Automaton.Move δ}
    (h : Implements cfg p m move) (hwf : ∀ us c', move = some (us, c') → c'.Wf ∧ c'.stack = s)
    (ho : observe UserCall.isError m = (us, some (r, q))) : Tracks cfg q s := by
  cases move with
  | none =>
    obtain ⟨code, position, hnone⟩ := h.observe_none
    cases hnone.symm.trans ho
  | some a =>
    obtain ⟨us', state, stack⟩ := a
    obtain ⟨p', hr, hsome⟩ := h.observe_some
    obtain ⟨hc, rfl⟩ := hwf us' ⟨state, stack⟩ rfl
    cases hsome.symm.trans ho
    have hstate : q.state = state := hr.state
    subst hstate
    exact .inr ⟨hr, hc⟩

lemma tracks_endToken {table : ParserState → Option ParserState} {u : UserCall δ} {position : Pointer}
    (hu : u.isError = false) (hr : Represents cfg p ⟨p.state, s⟩)
    (htable : ∃ state, table p.state = some state ∧ (state = .invalid ∨ Conf.Wf ⟨state, s⟩))
    (ho : observe UserCall.isError (endToken cfg table u p position) = (us, some (r, q))) :
    Tracks cfg q s := by
  obtain ⟨state, hstate, hwf⟩ := htable
  cases (observe_returnCall hu (lookupNextState table p)).symm.trans
    (observe_checkState (observe_checkState ho))
  rw [lookupNextState, hstate]
  exact hwf.imp id fun hwf => ⟨hr.setState state, hwf⟩

lemma stringNextState_wf {state : ParserState} (hc : Conf.Wf ⟨state, s⟩) :
    ∃ next, stringNextState state = some next ∧ (next = .invalid ∨ Conf.Wf ⟨next, s⟩) := by
  cases state with
  | invalid => exact hc.elim
  | expectColon | maybeObjectComma | maybeArrayComma | done => exact ⟨_, rfl, .inl rfl⟩
  | _ => exact ⟨_, rfl, .inr hc⟩

lemma bignumNextState_wf {state : ParserState} (hc : Conf.Wf ⟨state, s⟩) :
    ∃ next, bignumNextState state = some next ∧ (next = .invalid ∨ Conf.Wf ⟨next, s⟩) := by
  cases state with
  | invalid => exact hc.elim
  | expectValue | expectObjectValue | maybeArrayValue | expectArrayValue => exact ⟨_, rfl, .inr hc⟩
  | _ => exact ⟨_, rfl, .inl rfl⟩

lemma observe_invalid (hs : p.state = .invalid)
    (ho : observe UserCall.isError (onLexerCall cfg f p) = (us, some (r, q))) : q.state = .invalid := by
  have hdebug {position : Pointer} (ho : observe UserCall.isError
      (if cfg.debug then returnErrorEx p .internalError position else succeed p : ParserProgram δ) =
        (us, some (r, q))) : q.state = .invalid := by
    split_ifs at ho
    · cases ho
    · cases ho
      exact hs
  have hend {table : ParserState → Option ParserState} {u : UserCall δ} {position : Pointer}
      (hu : u.isError = false) (htable : table .invalid = none)
      (ho : observe UserCall.isError (endToken cfg table u p position) = (us, some (r, q))) :
      q.state = .invalid := by
    cases (observe_returnCall hu (lookupNextState table p)).symm.trans
      (observe_checkState (observe_checkState ho))
    rw [lookupNextState, hs, htable]
  cases f with
  | token t position =>
    rw [onLexerCall, embedjsonToken, hs] at ho
    exact hdebug ho
  | tokenc data bytes | tokenbn data bytes =>
    cases (observe_returnCall rfl p).symm.trans (observe_checkState ho)
    exact hs
  | tokeni v position | tokenf v position | tokenbnBegin position v =>
    simp only [onLexerCall, embedjsonTokeni, embedjsonTokenf, embedjsonTokenbnBegin, numberToken, hs]
      at ho
    exact hdebug ho
  | tokencBegin position =>
    rw [onLexerCall, embedjsonTokencBegin, hs] at ho
    exact hdebug ho
  | tokencEnd position | tokenbnEnd position => exact hend rfl rfl ho
  | errorEx code position => cases ho

lemma Tracks.step (hstatic : cfg.dynamicStack = false) (h : Tracks cfg p s)
    (ho : observe UserCall.isError (onLexerCall cfg f p) = (us, some (r, q))) :
    Tracks cfg q (nesting s f) := by
  rcases h with hs | ⟨hr, hc⟩
  · exact .inl (observe_invalid hs ho)
  have hcall (hf : Conf.Expects ⟨p.state, s⟩ f) : Tracks cfg q (nesting s f) :=
    (onLexerCall_implements hr hc hstatic hf).tracks
      (fun us c' hm => ⟨Automaton.call_wf (.inl rfl) hc hm, Automaton.call_stack hm⟩) ho
  cases f with
  | tokencEnd position => exact tracks_endToken rfl hr (stringNextState_wf hc) ho
  | tokenbnEnd position => exact tracks_endToken rfl hr (bignumNextState_wf hc) ho
  | tokenbnBegin position v =>
    refine (numberToken_implements hr hc rfl position).tracks (fun us c' hm => ?_) ho
    exact ⟨Automaton.primitive_wf hc hm, by
      obtain ⟨state, -, heq⟩ := Option.map_eq_some_iff.mp hm
      cases heq
      rfl⟩
  | tokenbn data bytes =>
    cases (observe_returnCall rfl p).symm.trans (observe_checkState ho)
    exact .inr ⟨hr, hc⟩
  | errorEx code position => cases ho
  | _ => exact hcall trivial

lemma feed_tracks (hstatic : cfg.dynamicStack = false) {l : List (LexerCall δ)} (h : Tracks cfg p s)
    (hl : feed UserCall.isError (onLexerCall cfg) l p = (us, some q)) :
    Tracks cfg q (l.foldl nesting s) := by
  induction l generalizing p s us with
  | nil =>
    cases hl
    exact h
  | cons f l ih =>
    rw [feed_cons] at hl
    rcases ho : observe UserCall.isError (onLexerCall cfg f p) with ⟨vs, _ | ⟨r, t⟩⟩
    · rw [ho, followedBy_none] at hl
      cases hl
    · rw [ho, followedBy_some, Prod.mk.injEq] at hl
      exact ih (h.step hstatic ho) (Prod.ext rfl hl.2)

end Steps

section Openings

variable (hstatic : cfg.dynamicStack = false) (hr : Represents cfg p ⟨p.state, s⟩)
  (hf : Opens p f)

include hstatic hr hf

lemma observe_full (hfull : s.length = cfg.stackLimit) :
    observe UserCall.isError (onLexerCall cfg f p) = ([.error .stackOverflow .null], none) := by
  obtain ⟨value, u, state, heq, -⟩ := onLexerCall_opens cfg s hf
  have hstack : stackFull cfg p = true := by
    rw [stackFull_iff hr hstatic]
    exact decide_eq_true hfull
  rw [heq, openContainer, stackPush, if_pos hstack, if_neg (by simp [hstatic])]
  rfl

lemma observe_room (hc : Conf.Wf ⟨p.state, s⟩) (hroom : s.length ≠ cfg.stackLimit) :
    ∃ u q, observe UserCall.isError (onLexerCall cfg f p) = ([u], some (0, q)) ∧ q.broken = false := by
  have himp {c : Conf} {value : StackValue} {u : UserCall δ} {state : ParserState}
      {m : ParserProgram δ} (hv : afterValue c.state ≠ none)
      (hs : c.stack.length ≠ cfg.automaton.capacity)
      (h : Implements cfg p m (cfg.automaton.openValue c value u state)) :
      ∃ u q, observe UserCall.isError m = ([u], some (0, q)) ∧ q.broken = false := by
    rw [Automaton.openValue, if_neg (not_or.mpr ⟨hv, hs⟩)] at h
    obtain ⟨q, hq, hm⟩ := h.observe_some
    exact ⟨u, q, hm, hq.sound⟩
  cases f with
  | token t position =>
    have h := onLexerCall_implements (δ := δ) (f := .token t position) hr hc hstatic trivial
    cases t with
    | openCurlyBracket | openBracket => exact himp (c := ⟨p.state, s⟩) hf hroom h
    | _ => exact absurd hf id
  | _ => exact absurd hf id

end Openings

section Brackets

def openBracket : LexerCall δ := .token .openBracket (.buffer 0)

lemma nesting_brackets (n : ℕ) :
    (List.replicate n (openBracket : LexerCall δ)).foldl nesting [] = List.replicate n .square := by
  induction n with
  | zero => rfl
  | succ n ih =>
    rw [List.replicate_succ', List.foldl_append, ih]
    rfl

lemma feed_brackets (hstatic : cfg.dynamicStack = false) {n : ℕ} (hn : n ≤ cfg.stackLimit) :
    ∃ us p, feed UserCall.isError (onLexerCall cfg) (List.replicate n (openBracket : LexerCall δ))
      (.zero cfg) = (us, some p) ∧ afterValue p.state ≠ none := by
  induction n with
  | zero => exact ⟨[], .zero cfg, rfl, nofun⟩
  | succ n ih =>
    obtain ⟨us, p, hfeed, hvalue⟩ := ih (by omega)
    have htracks := feed_tracks hstatic (.inr ⟨represents_zero cfg hstatic, rfl⟩) hfeed
    rw [nesting_brackets] at htracks
    rcases htracks with hs | ⟨hr, hc⟩
    · rw [hs] at hvalue
      exact absurd rfl hvalue
    have hroom : (List.replicate n StackValue.square).length ≠ cfg.automaton.capacity := by
      rw [List.length_replicate]
      change n ≠ cfg.stackLimit
      omega
    have himp := onLexerCall_implements (f := (openBracket : LexerCall δ)) hr hc hstatic trivial
    change Implements cfg p _ (cfg.automaton.openValue _ .square .arrayBegin .maybeArrayValue) at himp
    rw [Automaton.openValue, if_neg (not_or.mpr ⟨hvalue, hroom⟩)] at himp
    obtain ⟨q, hq, ho⟩ := himp.observe_some
    refine ⟨us ++ [.arrayBegin], q, ?_, ?_⟩
    · rw [List.replicate_succ', feed_concat hfeed, ho]
      rfl
    · rw [hq.state]
      exact nofun

end Brackets

section Limits

variable [DoubleArith δ]

/-- An opening bracket, where one may stand, is refused if and only if `limit` containers are open. With
fewer it is accepted, and no byte outside the stack is written. -/
def Nests (δ : Type) [DoubleArith δ] (cfg : Config) (limit : ℕ) : Prop :=
  ∀ (chunks : List (List UInt8)) (l : List (LexerCall δ)) (f : LexerCall δ) (us : List (UserCall δ))
    (p : Parser), l ++ [f] <+: lexerCalls cfg .zero chunks →
    feed UserCall.isError (onLexerCall cfg) l (.zero cfg) = (us, some p) → Opens p f →
      (observe UserCall.isError (onLexerCall cfg f p) = ([.error .stackOverflow .null], none) ↔
        (l.foldl nesting []).length = limit) ∧
      ((l.foldl nesting []).length < limit → ∃ u q,
        observe UserCall.isError (onLexerCall cfg f p) = ([u], some (0, q))) ∧
      p.broken = false ∧ ∀ vs q,
        observe UserCall.isError (onLexerCall cfg f p) = (vs, some (0, q)) → q.broken = false

lemma nests_stackLimit (hstatic : cfg.dynamicStack = false) : Nests δ cfg cfg.stackLimit := by
  intro chunks l f us p _ hl hf
  have htracks : Tracks cfg p (l.foldl nesting []) :=
    feed_tracks hstatic (.inr ⟨represents_zero cfg hstatic, rfl⟩) hl
  rcases htracks with hs | ⟨hr, hc⟩
  · cases f with
    | token t position => cases t <;> simp [Opens, hs, afterValue] at hf
    | _ => exact absurd hf id
  by_cases hfull : (l.foldl nesting []).length = cfg.stackLimit
  · have hrefused := observe_full hstatic hr hf hfull
    refine ⟨iff_of_true hrefused hfull, fun hlt => absurd hfull hlt.ne, hr.sound, fun vs q h => ?_⟩
    cases hrefused.symm.trans h
  · obtain ⟨u, q, hq, hsound⟩ := observe_room hstatic hr hf hc hfull
    refine ⟨iff_of_false (fun h => ?_) hfull, fun _ => ⟨u, q, hq⟩, hr.sound, fun vs q' h => ?_⟩
    · cases hq.symm.trans h
    · cases hq.symm.trans h
      exact hsound

lemma observe_bracket {lexer : Lexer} (hs : lexer.state = .lookupToken) :
    observe LexerCall.isError (embedjsonLexerPush (δ := δ) cfg ['['.toUInt8] lexer) =
      ([openBracket], some (0, recordMagic lexer '['.toUInt8)) := by
  have hdispatch (c : Cursor) (hc : c.lex.state = .lookupToken) :
      observe LexerCall.isError (dispatch (δ := δ) cfg ['['.toUInt8] c '['.toUInt8) =
        ([.token .openBracket c.position], some (.ok c)) := by
    rw [dispatch, hc]
    rfl
  have hrecord : (recordMagic lexer '['.toUInt8).state = .lookupToken := by
    rw [recordMagic_state, hs]
  have hloop : observe LexerCall.isError (loop (δ := δ) cfg ['['.toUInt8] 3 (start lexer)) =
      ([openBracket], some (some (.ok
        { start lexer with lex := recordMagic lexer '['.toUInt8, data := 1 }))) := by
    rw [loop_succ (b := '['.toUInt8) rfl zero_lt_one, hdispatch _ hrecord, followedBy_some]
    rfl
  rw [embedjsonLexerPush, observe_bind]
  change followedBy (observe LexerCall.isError (loop (δ := δ) cfg ['['.toUInt8] 3 (start lexer))) _ = _
  rw [hloop, followedBy_some]
  dsimp only
  rw [flushEnd]
  dsimp only
  rw [hrecord]
  rfl

lemma lexerPushAll_brackets (n : ℕ) {lexer : Lexer} (hs : lexer.state = .lookupToken) :
    (observe LexerCall.isError
      (lexerPushAll (δ := δ) cfg lexer (List.replicate n ['['.toUInt8]))).1 =
        List.replicate n openBracket := by
  induction n generalizing lexer with
  | zero => rfl
  | succ n ih =>
    rw [List.replicate_succ, lexerPushAll, observe_bind, observe_bracket hs, followedBy_some,
      if_neg (not_not_intro rfl), ih (by rw [recordMagic_state, hs])]
    rfl

theorem static_capacity_iff (hstatic : cfg.dynamicStack = false) :
    Nests δ cfg (8 * cfg.staticStackSize) ↔ cfg.staticStackSize < 32 := by
  constructor
  · intro hnests
    obtain ⟨us, p, hfeed, hvalue⟩ := feed_brackets (δ := δ) hstatic le_rfl
    have hcalls : List.replicate cfg.stackLimit openBracket ++ [openBracket] <+:
        (lexerCalls cfg .zero (List.replicate (cfg.stackLimit + 1) ['['.toUInt8]) :
          List (LexerCall δ)) := by
      rw [lexerCalls, lexerPushAll_brackets _ rfl, List.replicate_succ']
    have hlength : ((List.replicate cfg.stackLimit (openBracket : LexerCall δ)).foldl nesting []).length =
        cfg.stackLimit := by rw [nesting_brackets, List.length_replicate]
    have hlimit := ((nests_stackLimit hstatic _ _ _ us p hcalls hfeed hvalue).1).mpr hlength
    have hbits := ((hnests _ _ _ us p hcalls hfeed hvalue).1).mp hlimit
    rw [hlength, Config.stackLimit] at hbits
    omega
  · intro hsize
    have hlimit : cfg.stackLimit = 8 * cfg.staticStackSize := by
      rw [Config.stackLimit]
      omega
    rw [← hlimit]
    exact nests_stackLimit hstatic

theorem static_capacity_iff_sixteen : Nests ℚ .default 128 := by
  have hstatic : Config.default.dynamicStack = false := rfl
  exact (static_capacity_iff hstatic).mpr (by decide)

theorem no_room_in_32_bytes :
    observe UserCall.isError (embedjsonPush (δ := ℚ) { Config.default with staticStackSize := 32 }
      (.zero { Config.default with staticStackSize := 32 }) ['['.toUInt8]) =
        ([.error .stackOverflow .null], none) := by
  decide +kernel

end Limits

end Embedjson
