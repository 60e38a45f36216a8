import Embedjson.CallbackFailures
import Embedjson.DynamicStack
import Embedjson.Lexer.Order
import Embedjson.Parser.Invariant
import Embedjson.Switches

namespace Embedjson

open Foundations Foundations.Program

variable {δ : Type} {cfg : Config} {p q : Parser} {f : LexerCall δ} {l : List (LexerCall δ)}
  {us : List (UserCall δ)} {b b' : Bool} {r : ℤ}

/-- The parser between two calls of the lexer, inside a string or not. -/
def Settled (cfg : Config) (inside : Bool) (p : Parser) : Prop :=
  ∃ c, Represents cfg p c ∧ c.Wf ∧ (inside = true → afterString c.state ≠ none)

def LexerCall.completes : LexerCall δ → Bool
  | tokencBegin _ | tokenc _ _ => false
  | _ => true

section Calls

variable (hstatic : cfg.dynamicStack = false)

include hstatic

lemma Settled.step (h : Settled cfg b p) (hf : phase b f = some b')
    (ho : observe UserCall.isError (onLexerCall cfg f p) = (us, some (r, q))) : Settled cfg b' q := by
  obtain ⟨c, hr, hc, hb⟩ := h
  have himp := onLexerCall_implements hr hc hstatic (expects_of_phase hf hb)
  cases hm : cfg.automaton.call c f with
  | none =>
    rw [hm] at himp
    obtain ⟨code, position, hnone⟩ := himp.observe_none
    cases hnone.symm.trans ho
  | some a =>
    obtain ⟨vs, c'⟩ := a
    rw [hm] at himp
    obtain ⟨p', hr', hsome⟩ := himp.observe_some
    cases hsome.symm.trans ho
    exact ⟨c', hr', Automaton.call_wf (.inl rfl) hc hm, afterString_of_phase hf hm hb⟩

lemma Settled.feed (h : Settled cfg b p) (hl : l.foldlM phase b = some b')
    (ho : feed UserCall.isError (onLexerCall cfg) l p = (us, some q)) : Settled cfg b' q := by
  induction l generalizing p b us with
  | nil =>
    cases hl
    cases ho
    exact h
  | cons f l ih =>
    obtain ⟨c, hf, hl⟩ := Option.bind_eq_some_iff.mp (List.foldlM_cons.symm.trans hl)
    rw [feed_cons] at ho
    rcases hstep : observe UserCall.isError (onLexerCall cfg f p) with ⟨vs, _ | ⟨r, t⟩⟩
    · rw [hstep, followedBy_none] at ho
      cases ho
    · rw [hstep, followedBy_some, Prod.mk.injEq] at ho
      exact ih (h.step hstatic hf hstep) hl (Prod.ext rfl ho.2)

lemma Settled.refuses (h : Settled cfg b p) (hf : phase b f = some b')
    (ho : (observe UserCall.isError (onLexerCall cfg f p)).2 = none)
    {answer : List (UserCall δ) → UserCall δ → ℤ} (hA : Accepting UserCall.isError answer)
    (history : List (UserCall δ)) :
    ∃ code position,
      (observe UserCall.isError (onLexerCall cfg f p)).1 = [.error code position] ∧
      (run answer (onLexerCall cfg f p) history).2.2 = p := by
  obtain ⟨c, hr, hc, hb⟩ := h
  have himp := onLexerCall_implements hr hc hstatic (expects_of_phase hf hb)
  cases hm : cfg.automaton.call c f with
  | none =>
    rw [hm] at himp
    obtain ⟨code, position, next, -, heq, hnext⟩ := himp
    rw [heq]
    refine ⟨code, position, rfl, ?_⟩
    rw [run, hnext _ (hA.refuses history _ rfl)]
    rfl
  | some a =>
    rw [hm] at himp
    obtain ⟨p', -, hsome⟩ := himp.observe_some
    rw [hsome] at ho
    cases ho

end Calls

section Strings

lemma observe_incomplete (hf : f.completes = false)
    (ho : observe UserCall.isError (onLexerCall cfg f p) = (us, some (r, q))) : q = p := by
  cases f with
  | tokenc data bytes =>
    rw [onLexerCall, embedjsonTokenc, checkState] at ho
    split_ifs at ho
    · cases ho
    · cases ho
      rfl
  | tokencBegin position =>
    rw [onLexerCall, embedjsonTokencBegin] at ho
    cases hs : p.state <;> rw [hs] at ho <;> dsimp only at ho
    case invalid =>
      split_ifs at ho
      · cases ho
      · cases ho
        rfl
    all_goals
      cases ho
      try rfl
  | _ => cases hf

lemma feed_completes (ho : feed UserCall.isError (onLexerCall cfg) l p = (us, some q)) :
    ∃ vs, feed UserCall.isError (onLexerCall cfg) (l.filter LexerCall.completes) p = (vs, some q) := by
  induction l generalizing p us with
  | nil => exact ⟨us, ho⟩
  | cons f l ih =>
    rw [feed_cons] at ho
    rcases hstep : observe UserCall.isError (onLexerCall cfg f p) with ⟨vs, _ | ⟨r, t⟩⟩
    · rw [hstep, followedBy_none] at ho
      cases ho
    · rw [hstep, followedBy_some, Prod.mk.injEq] at ho
      obtain ⟨ws, hws⟩ := ih (Prod.ext rfl ho.2)
      cases hf : f.completes with
      | false =>
        rw [observe_incomplete hf hstep] at hws
        rw [List.filter_cons_of_neg (by simp [hf])]
        exact ⟨ws, hws⟩
      | true =>
        rw [List.filter_cons_of_pos hf, feed_cons, hstep, followedBy_some, hws]
        exact ⟨_, rfl⟩

lemma feed_lexer (hne : ∀ f ∈ l, f.Nonempty)
    (ho : feed UserCall.isError (onLexerCall cfg) l p = (us, some q)) : q.lexer = p.lexer := by
  induction l generalizing p us with
  | nil =>
    cases ho
    rfl
  | cons f l ih =>
    obtain ⟨hf, hl⟩ := List.forall_mem_cons.mp hne
    rw [feed_cons] at ho
    rcases hstep : observe UserCall.isError (onLexerCall cfg f p) with ⟨vs, _ | ⟨r, t⟩⟩
    · rw [hstep, followedBy_none] at ho
      cases ho
    · rw [hstep, followedBy_some, Prod.mk.injEq] at ho
      have ht : t.lexer = p.lexer := (onLexerCall_keeps cfg hf p).observe hstep
      rw [ih hl (Prod.ext rfl ho.2), ht]

end Strings

section Pushes

variable [DoubleArith δ]

/-- Pushes that all return zero lead from a zeroed parser to `p`. -/
def Reached (δ : Type) [DoubleArith δ] (cfg : Config) (p : Parser) : Prop :=
  ∃ (chunks : List (List UInt8)) (us : List (UserCall δ)),
    observe UserCall.isError (pushAll cfg (.zero cfg) chunks) = (us, some (0, p))

lemma run_embedjsonPush (answer : List (UserCall δ) → UserCall δ → ℤ) (chunk : List UInt8)
    (history : List (UserCall δ)) :
    run answer (embedjsonPush cfg p chunk) history =
      let x := run answer (interpret (onLexerCall cfg) (embedjsonLexerPush cfg chunk p.lexer) p) history
      (x.1, x.2.1.1, x.2.2.setLexer x.2.1.2) := by
  rw [embedjsonPush, run_bind]
  simp only [run, List.append_nil]
  rfl

variable (hstatic : cfg.dynamicStack = false) (hbignum : cfg.bignum = false)

include hstatic hbignum

lemma Settled.pushAll {chunks : List (List UInt8)} (h : Settled cfg p.lexer.inside p)
    (hs : p.lexer.state ≠ .inBigNumber)
    (ho : observe UserCall.isError (pushAll cfg p chunks) = (us, some (0, q))) :
    Settled cfg q.lexer.inside q ∧ q.lexer.state ≠ .inBigNumber := by
  induction chunks generalizing p us with
  | nil =>
    cases ho
    exact ⟨h, hs⟩
  | cons chunk chunks ih =>
    obtain ⟨vs, ws, t, hpush, hrest, -⟩ := observe_pushAll_cons ho
    obtain ⟨l, t', hlexer, hfeed, ht⟩ := observe_push_some hpush
    obtain ⟨next, horder, hnext⟩ := embedjsonLexerPush_inOrder (δ := δ) hbignum hs chunk
    rw [hlexer] at horder hnext
    obtain ⟨rfl, hs'⟩ := hnext _ rfl
    obtain ⟨c, hr, hc⟩ := h.feed hstatic horder hfeed
    refine ih ⟨c, ?_, hc⟩ hs' hrest
    rw [ht]
    exact ⟨hr.state, hr.stack, hr.length, hr.size, hr.sound⟩

lemma Reached.settled (h : Reached δ cfg p) :
    Settled cfg p.lexer.inside p ∧ p.lexer.state ≠ .inBigNumber := by
  obtain ⟨chunks, us, ho⟩ := h
  have hzero : Settled cfg false (.zero cfg) := ⟨.zero, represents_zero cfg hstatic, rfl, nofun⟩
  exact Settled.pushAll hstatic hbignum (p := .zero cfg) hzero nofun ho

/-- A push that fails with an error of embedjson leaves the parser that the calls before the refused one
made, with the lexer from before. The string that is incomplete then has no part in it. -/
theorem rejected_token_keeps_state (hreach : Reached δ cfg p)
    {answer : List (UserCall δ) → UserCall δ → ℤ} (hA : Accepting UserCall.isError answer)
    (chunk : List UInt8) (history : List (UserCall δ))
    (hfails : (run answer (embedjsonPush cfg p chunk) history).2.1 ≠ 0) :
    ∃ (calls : List (LexerCall δ)) (f : LexerCall δ) (us : List (UserCall δ)) (code : ErrorCode)
      (position : Pointer) (q : Parser),
      calls ++ [f] <+: (observe LexerCall.isError (embedjsonLexerPush cfg chunk p.lexer)).1 ∧
      feed UserCall.isError (onLexerCall cfg) calls p = (us, some q) ∧
      (∃ vs, feed UserCall.isError (onLexerCall cfg) (calls.filter LexerCall.completes) p =
        (vs, some q)) ∧
      observe UserCall.isError (onLexerCall cfg f q) = ([.error code position], none) ∧
      (run answer (embedjsonPush cfg p chunk) history).1 = us ++ [.error code position] ∧
      (run answer (embedjsonPush cfg p chunk) history).2.2 = q ∧ q.lexer = p.lexer := by
  obtain ⟨hsettled, hs⟩ := hreach.settled hstatic hbignum
  have hlexer : _ → (run answer (interpret (onLexerCall cfg) (embedjsonLexerPush cfg chunk p.lexer) p)
      history).2.1.2 = p.lexer :=
    ((embedjsonLexerPush_keeps cfg p.lexer chunk).interpret p).run answer history
  have hfast : FailsFast Prod.fst (embedjsonLexerPush (δ := δ) cfg chunk p.lexer) :=
    embedjsonLexerPush_failsFast p.lexer
  rw [run_embedjsonPush] at hfails ⊢
  obtain ⟨l, f, us, t, hstart, hfeed, hnone, hcalls, hstate⟩ :=
    hfast.run_interpret_failed onLexerCall_relaysCode (fun f hf => observe_onLexerCall_error cfg hf)
      hA hfails
  obtain ⟨next, horder, -⟩ := embedjsonLexerPush_inOrder (δ := δ) hbignum hs chunk
  obtain ⟨rest, hrest⟩ := hstart
  rw [← hrest, List.foldlM_append] at horder
  obtain ⟨b', horder, -⟩ := Option.bind_eq_some_iff.mp horder
  obtain ⟨b, hl, hf⟩ := phase_concat horder
  obtain ⟨code, position, herror, hkeeps⟩ :=
    (hsettled.feed hstatic hl hfeed).refuses hstatic hf hnone hA (history ++ us)
  have hnonempty : ∀ g ∈ l, g.Nonempty := fun g hg =>
    (embedjsonLexerPush_agrees (δ := δ) cfg p.lexer 0 chunk).1 g (hrest ▸ by simp [hg])
  have hq : t.lexer = p.lexer := feed_lexer hnonempty hfeed
  refine ⟨l, f, us, code, position, t, ⟨rest, hrest⟩, hfeed, feed_completes hfeed,
    Prod.ext herror hnone, ?_, ?_, hq⟩
  · rw [← herror]
    exact hcalls
  · dsimp only
    rw [hstate, hkeeps, hlexer hfails, ← hq]
    rfl

end Pushes

def squareThenCurly : List UInt8 := ['['.toUInt8, '}'.toUInt8]

theorem rejected_token_keeps_state_curly :
    ∃ (calls : List (LexerCall ℚ)) (us : List (UserCall ℚ)) (position : Pointer) (q : Parser),
      feed UserCall.isError (onLexerCall .default) calls (.zero .default) = (us, some q) ∧
      (run (accept UserCall.isError) (embedjsonPush .default (.zero .default) squareThenCurly) []).1 =
        us ++ [.error .unexpCloseCurly position] ∧
      (run (accept UserCall.isError)
        (embedjsonPush (δ := ℚ) .default (.zero .default) squareThenCurly) []).2.2 = q ∧
      q.lexer = .zero := by
  have hreach : Reached ℚ .default (.zero .default) := ⟨[], [], rfl⟩
  obtain ⟨calls, f, us, code, position, q, -, hfeed, -, -, hcalls, hq, hlexer⟩ :=
    rejected_token_keeps_state rfl rfl hreach (accepting_accept UserCall.isError) squareThenCurly []
      (by decide +kernel)
  have hrun : (run (accept UserCall.isError)
      (embedjsonPush (δ := ℚ) .default (.zero .default) squareThenCurly) []).1 =
        [.arrayBegin] ++ [.error .unexpCloseCurly (.buffer 1)] := by decide +kernel
  have hlast := List.append_inj_right' (hcalls.symm.trans hrun) rfl
  cases hlast
  exact ⟨calls, us, _, q, hfeed, hcalls, hq, hlexer⟩

end Embedjson
