import Embedjson.Parser.Stream
import Embedjson.RejectedTokens

namespace Embedjson

open Foundations Foundations.Program

variable {δ α : Type} {cfg : Config} {p : Parser} {answer : List (UserCall δ) → UserCall δ → ℤ}

/-- A run that reports no internal error and leaves an intact parser behind. -/
structure Unalarmed (cfg : Config) (us : List (UserCall δ)) (p : Parser) : Prop where
  harmless : Harmless cfg p
  silent : ∀ position, .error .internalError position ∉ us

lemma Unalarmed.prepend {us vs : List (UserCall δ)} (h : Unalarmed cfg vs p)
    (hus : ∀ position, .error .internalError position ∉ us) : Unalarmed cfg (us ++ vs) p := by
  refine ⟨h.harmless, fun position hmem => ?_⟩
  rcases List.mem_append.mp hmem with hmem | hmem
  · exact hus position hmem
  · exact h.silent position hmem

structure Awaits (cfg : Config) (p : Parser) : Prop where
  settled : Settled cfg p.lexer.inside p
  small : p.lexer.state ≠ .inBigNumber

lemma Settled.harmless {inside : Bool} (h : Settled cfg inside p) : Harmless cfg p := by
  obtain ⟨c, hr, hc, -⟩ := h
  exact hr.harmless hc

lemma Settled.setLexer {inside : Bool} (h : Settled cfg inside p) (lex : Lexer) :
    Settled cfg inside { p with lexer := lex } := by
  obtain ⟨c, hr, hc, hb⟩ := h
  exact ⟨c, ⟨hr.state, hr.stack, hr.length, hr.size, hr.sound⟩, hc, hb⟩

section Interpreted

variable (hE : ∀ history code position, answer history (.error code position) ≠ 0)
  (hstatic : cfg.dynamicStack = false) (debug : Bool)

include hE hstatic

lemma interpret_debug {code : α → ℤ} {m : Program (LexerCall δ) α} (hm : FailsFast code m)
    {b b' : Bool} (horder : (observe LexerCall.isError m).1.foldlM phase b = some b')
    (h : Settled cfg b p) (history : List (UserCall δ)) :
    run answer (interpret (onLexerCall { cfg with debug := debug }) m p) history =
        run answer (interpret (onLexerCall cfg) m p) history ∧
      Unalarmed cfg (run answer (interpret (onLexerCall cfg) m p) history).1
        (run answer (interpret (onLexerCall cfg) m p) history).2.2 ∧
      (code (run answer (interpret (onLexerCall cfg) m p) history).2.1 = 0 →
        (observe LexerCall.isError m).2 =
            some (run answer (interpret (onLexerCall cfg) m p) history).2.1 ∧
          Settled cfg b' (run answer (interpret (onLexerCall cfg) m p) history).2.2) := by
  induction m generalizing p b history with
  | done a =>
    cases horder
    exact ⟨rfl, ⟨h.harmless, fun _ => List.not_mem_nil⟩, fun _ => ⟨rfl, h⟩⟩
  | call f next ih =>
    obtain ⟨c, hr, hc, hb⟩ := h
    obtain ⟨d, hf, hrest⟩ : ∃ d, phase b f = some d ∧ (f.isError = false →
        (observe LexerCall.isError (next 0)).1.foldlM phase d = some b') := by
      cases hf : f.isError with
      | true =>
        rw [observe_call_of_mem hf] at horder
        obtain ⟨d, hd, -⟩ := Option.bind_eq_some_iff.mp (List.foldlM_cons.symm.trans horder)
        exact ⟨d, hd, nofun⟩
      | false =>
        rw [observe_call_of_notMem hf] at horder
        obtain ⟨d, hd, hrest⟩ := Option.bind_eq_some_iff.mp (List.foldlM_cons.symm.trans horder)
        exact ⟨d, hd, fun _ => hrest⟩
    have herror : f.isError = true → (run answer (onLexerCall cfg f p) history).2.1 ≠ 0 := by
      cases f with
      | errorEx code position => exact fun _ => hE _ _ _
      | _ => exact nofun
    obtain ⟨hsafe, hnext⟩ := onLexerCall_safe hE hr hc hstatic hb hf history
    simp only [interpret, onLexerCall_debug hr hc debug (expects_of_phase hf hb), run_bind]
    generalize run answer (onLexerCall cfg f p) history = x at herror hsafe hnext
    by_cases hz : x.2.1 = 0
    · have hquiet : f.isError = false := Bool.eq_false_iff.mpr fun hf => herror hf hz
      obtain ⟨hsame, hsafe', hdone⟩ := ih 0 hm.2 (hrest hquiet) (hnext hz) (history ++ x.1)
      rw [hz, hsame, observe_call_of_notMem hquiet]
      exact ⟨rfl, hsafe'.prepend hsafe.quiet, hdone⟩
    · obtain ⟨a, ha, hcode⟩ := hm.1 _ hz
      rw [ha]
      simp only [interpret, run, List.append_nil]
      exact ⟨trivial, ⟨hsafe.harmless, hsafe.quiet⟩, fun h => absurd (hcode.symm.trans h) hz⟩

end Interpreted

section Lexing

variable [DoubleArith δ] (cfg) (debug : Bool)

lemma loop_debug (chunk : List UInt8) (fuel : ℕ) (c : Cursor) :
    loop (δ := δ) { cfg with debug := debug } chunk fuel c = loop cfg chunk fuel c := by
  induction fuel generalizing c with
  | zero => rfl
  | succ fuel ih =>
    have hrest : loop (δ := δ) { cfg with debug := debug } chunk fuel = loop cfg chunk fuel :=
      funext ih
    rw [loop, loop, hrest]
    rfl

lemma embedjsonLexerPush_debug (chunk : List UInt8) (lexer : Lexer) :
    embedjsonLexerPush (δ := δ) { cfg with debug := debug } chunk lexer =
      embedjsonLexerPush cfg chunk lexer := by
  rw [embedjsonLexerPush, loop_debug]
  rfl

end Lexing

section Pushes

variable [DoubleArith δ]

variable (hE : ∀ history code position, answer history (.error code position) ≠ 0)
  (hstatic : cfg.dynamicStack = false) (hbignum : cfg.bignum = false) (debug : Bool)

include hE hstatic hbignum

lemma embedjsonPush_debug (h : Awaits cfg p) (chunk : List UInt8) (history : List (UserCall δ)) :
    run answer (embedjsonPush { cfg with debug := debug } p chunk) history =
        run answer (embedjsonPush cfg p chunk) history ∧
      Unalarmed cfg (run answer (embedjsonPush cfg p chunk) history).1
        (run answer (embedjsonPush cfg p chunk) history).2.2 ∧
      ((run answer (embedjsonPush cfg p chunk) history).2.1 = 0 →
        Awaits cfg (run answer (embedjsonPush cfg p chunk) history).2.2) := by
  obtain ⟨next, horder, hend⟩ := embedjsonLexerPush_inOrder (δ := δ) hbignum h.small chunk
  obtain ⟨hsame, hsafe, hdone⟩ := interpret_debug hE hstatic debug
    (embedjsonLexerPush_failsFast p.lexer) horder h.settled history
  simp only [embedjsonPush, embedjsonLexerPush_debug, run_bind, hsame, run, List.append_nil]
  refine ⟨trivial, ⟨⟨hsafe.harmless.valid, hsafe.harmless.size, hsafe.harmless.sound⟩, hsafe.silent⟩,
    fun hz => ?_⟩
  obtain ⟨hobserve, hsettled⟩ := hdone hz
  obtain ⟨rfl, hsmall⟩ := hend _ hobserve
  exact ⟨hsettled.setLexer _, hsmall⟩

lemma pushAll_debug (h : Awaits cfg p) (chunks : List (List UInt8)) (history : List (UserCall δ)) :
    run answer (pushAll { cfg with debug := debug } p chunks) history =
        run answer (pushAll cfg p chunks) history ∧
      Unalarmed cfg (run answer (pushAll cfg p chunks) history).1
        (run answer (pushAll cfg p chunks) history).2.2 ∧
      ((run answer (pushAll cfg p chunks) history).2.1 = 0 →
        Awaits cfg (run answer (pushAll cfg p chunks) history).2.2) := by
  induction chunks generalizing p history with
  | nil => exact ⟨rfl, ⟨h.settled.harmless, fun _ => List.not_mem_nil⟩, fun _ => h⟩
  | cons chunk chunks ih =>
    obtain ⟨hsame, hsafe, hnext⟩ := embedjsonPush_debug hE hstatic hbignum debug h chunk history
    simp only [pushAll, run_bind, hsame]
    generalize run answer (embedjsonPush cfg p chunk) history = x at hsafe hnext
    by_cases hz : x.2.1 = 0
    · obtain ⟨hsame', hsafe', hdone⟩ := ih (hnext hz) (history ++ x.1)
      simp only [hz, ne_eq, not_true_eq_false, if_false, hsame']
      exact ⟨trivial, hsafe'.prepend hsafe.silent, hdone⟩
    · simp only [ne_eq, hz, not_false_eq_true, if_true, run, List.append_nil]
      exact ⟨trivial, hsafe, False.elim⟩

omit hbignum in
lemma embedjsonFinalize_debug (h : Awaits cfg p) (history : List (UserCall δ)) :
    run answer (embedjsonFinalize { cfg with debug := debug } p) history =
        run answer (embedjsonFinalize cfg p) history ∧
      Unalarmed cfg (run answer (embedjsonFinalize cfg p) history).1
        (run answer (embedjsonFinalize cfg p) history).2.2 := by
  obtain ⟨next, horder⟩ := embedjsonLexerFinalize_inOrder (δ := δ) cfg h.small
  obtain ⟨hsame, hsafe, -⟩ := interpret_debug hE hstatic debug
    (embedjsonLexerFinalize_failsFast p.lexer) horder h.settled history
  have hlexer : embedjsonLexerFinalize (δ := δ) { cfg with debug := debug } p.lexer =
      embedjsonLexerFinalize cfg p.lexer := rfl
  simp only [embedjsonFinalize, hlexer, run_bind, hsame, true_and]
  generalize run answer (interpret (onLexerCall cfg) (embedjsonLexerFinalize cfg p.lexer) p)
    history = x at hsafe
  split_ifs
  · simpa [run] using hsafe
  · refine ⟨hsafe.harmless, fun position hmem => ?_⟩
    rcases List.mem_append.mp hmem with hmem | hmem
    · exact hsafe.silent position hmem
    · cases List.mem_singleton.mp hmem
  · simpa [run, succeed] using hsafe

/-- An application that refuses errors cannot tell a debug build from a release build, whatever the
bytes, their chunks and its other answers are. Neither reports an internal error. -/
theorem debug_agrees (chunks : List (List UInt8)) :
    run answer (parse { cfg with debug := debug } chunks) [] = run answer (parse cfg chunks) [] ∧
    (∀ position, .error .internalError position ∉ (run answer (parse cfg chunks) []).1) ∧
    (run answer (parse cfg chunks) []).2.2.state ≠ .invalid ∧
    (run answer (parse cfg chunks) []).2.2.stackSize ≤ cfg.stackLimit ∧
    (run answer (parse cfg chunks) []).2.2.broken = false := by
  have hzero : Awaits cfg (.zero cfg) := ⟨⟨.zero, represents_zero cfg hstatic, rfl, nofun⟩, nofun⟩
  obtain ⟨hsame, hsafe, hnext⟩ := pushAll_debug hE hstatic hbignum debug hzero chunks []
  suffices h : run answer (parse { cfg with debug := debug } chunks) [] =
      run answer (parse cfg chunks) [] ∧ Unalarmed cfg (run answer (parse cfg chunks) []).1
        (run answer (parse cfg chunks) []).2.2 by
    exact ⟨h.1, h.2.silent, h.2.harmless.valid, h.2.harmless.size, h.2.harmless.sound⟩
  have hparser : Parser.zero { cfg with debug := debug } = .zero cfg := rfl
  simp only [parse, hparser, run_bind, hsame, List.nil_append]
  generalize run answer (pushAll cfg (.zero cfg) chunks) [] = x at hsafe hnext
  by_cases hz : x.2.1 = 0
  · obtain ⟨hsame', hsafe'⟩ := embedjsonFinalize_debug hE hstatic debug (hnext hz) x.1
    simp only [hz, ne_eq, not_true_eq_false, if_false, hsame', true_and]
    exact hsafe'.prepend hsafe.silent
  · simp only [ne_eq, hz, not_false_eq_true, if_true, run, List.append_nil, true_and]
    exact hsafe

end Pushes

/-- The text `{"a" 1`, in two chunks. -/
theorem debug_agrees_key :
    run (accept UserCall.isError) (parse (δ := ℚ) { Config.default with debug := true }
        [[123, 34, 97], [34, 32, 49]]) [] =
      run (accept UserCall.isError) (parse .default [[123, 34, 97], [34, 32, 49]]) [] :=
  (debug_agrees (fun history _ _ => (accepting_accept UserCall.isError).refuses history _ rfl) rfl rfl
    true [[123, 34, 97], [34, 32, 49]]).1

end Embedjson
