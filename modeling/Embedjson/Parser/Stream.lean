import Embedjson.Grammar.Traversal
import Embedjson.Parser.Chunking
import Embedjson.Parser.Documents
import Embedjson.Parser.Invariant

namespace Embedjson

open Foundations Foundations.Program Json

variable {δ : Type} {cfg : Config} {inside : Bool} {us : List (UserCall δ)} {p : Parser}

def Seen (cfg : Config) (inside : Bool) (us : List (UserCall δ)) (p : Parser) : Prop :=
  ∃ (c : Conf) (ts : List (Lexeme δ)) (vs : List (UserCall δ)),
    Represents cfg p c ∧ c.Wf ∧ cfg.automaton.machine.run .zero ts = (vs, .ok c) ∧
      if inside then afterString c.state ≠ none ∧
        ∃ text : Text, us = vs ++ .stringBegin :: text.map .stringChunk
      else us = vs

/-- What follows the callbacks `us`: the beginning of a traversal, and an error at its end when there
is no result. -/
def Continues (cfg : Config) (us : List (UserCall δ)) (x : List (UserCall δ) × Option Parser)
    (inside : Parser → Bool) : Prop :=
  match x.2 with
  | some p => Seen cfg (inside p) (us ++ x.1) p
  | none => ∃ ws u b q, x.1 = ws ++ [u] ∧ u.isError = true ∧ Seen cfg b (us ++ ws) q

namespace Seen

lemma setLexer (h : Seen cfg inside us p) (lex : Lexer) : Seen cfg inside us (p.setLexer lex) := by
  obtain ⟨c, ts, vs, hr, hrest⟩ := h
  exact ⟨c, ts, vs, ⟨hr.state, hr.stack, hr.length, hr.size, hr.sound⟩, hrest⟩

theorem events_extend (h : Seen cfg inside us p) : ∃ v : Json δ, us <+: traversal v := by
  obtain ⟨c, ts, vs, -, -, hrun, h⟩ := h
  cases inside with
  | false =>
    obtain rfl : us = vs := h
    exact (Reading.of_run (d := .implemented) rfl hrun).events_extend
  | true =>
    obtain ⟨hs, text, rfl⟩ := h
    obtain ⟨s, hs⟩ := Option.ne_none_iff_exists'.mp hs
    have hx : cfg.automaton.machine.run c [(.string text : Lexeme δ)] =
        (textCalls text, .ok { c with state := s }) := by
      rw [Transducer.run_singleton, Automaton.machine_step_ok, Automaton.lexeme, hs]
      rfl
    have hall := Transducer.run_append_ok _ hrun [(.string text : Lexeme δ)]
    rw [hx] at hall
    obtain ⟨v, hv⟩ := (Reading.of_run (d := .implemented) rfl hall).events_extend
    exact ⟨v, List.IsPrefix.trans ⟨[.stringEnd], by simp [textCalls]⟩ hv⟩

theorem eq_traversal (h : Seen cfg inside us p) (hp : p.state = .done) :
    ∃ v : Json δ, us = traversal v := by
  obtain ⟨c, ts, vs, hr, -, hrun, h⟩ := h
  rw [hr.state] at hp
  cases inside with
  | false =>
    obtain rfl : us = vs := h
    obtain ⟨v, -, hv⟩ := sound (d := .implemented) rfl hrun hp
    exact ⟨v, hv⟩
  | true =>
    obtain ⟨hs, -⟩ := h
    rw [hp] at hs
    exact absurd rfl hs

variable (hstatic : cfg.dynamicStack = false)

include hstatic

lemma zero : Seen cfg false ([] : List (UserCall δ)) (.zero cfg) :=
  ⟨.zero, [], [], represents_zero _ hstatic, rfl, rfl, rfl⟩

lemma step (h : Seen cfg inside us p) {f : LexerCall δ} {next : Bool}
    (hf : phase inside f = some next) :
    (∃ vs q, parserStep cfg p f = (vs, .ok q) ∧ Seen cfg next (us ++ vs) q) ∨
      ∃ u code, parserStep cfg p f = ([u], .error code) ∧ u.isError = true := by
  obtain ⟨c, ts, vs, hr, hc, hrun, h⟩ := h
  have hb : inside = true → afterString c.state ≠ none := by
    rintro rfl
    exact h.1
  have hstep := parserStep_follows hr hc hstatic (expects_of_phase hf hb)
  cases hm : cfg.automaton.call c f with
  | none =>
    rw [hm] at hstep
    exact .inr hstep
  | some a =>
    obtain ⟨ws, c'⟩ := a
    rw [hm] at hstep
    obtain ⟨q, heq, hr', hc'⟩ := hstep
    refine .inl ⟨ws, q, heq, ?_⟩
    -- A whole token that is one call.
    have htoken {x : Lexeme δ} (hx : cfg.automaton.lexeme c x = some (ws, c')) (hi : us = vs) :
        Seen cfg false (us ++ ws) q := by
      refine ⟨c', ts ++ [x], vs ++ ws, hr', hc', ?_, by rw [hi]; rfl⟩
      rw [Transducer.run_append_ok _ hrun, Transducer.run_singleton,
        Automaton.machine_step_ok.mpr hx]
    cases inside with
    | false =>
      cases f with
      | token t position =>
        cases hf
        exact htoken (x := .tok t) hm h
      | tokeni v position =>
        cases hf
        exact htoken (x := .int v) hm h
      | tokenf v position =>
        cases hf
        exact htoken (x := .double v) hm h
      | tokencBegin position =>
        cases hf
        obtain ⟨s, hs, heq⟩ := Option.map_eq_some_iff.mp hm
        cases heq
        exact ⟨c, ts, vs, hr', hc', hrun, by simp [hs], [], by rw [show us = vs from h]; rfl⟩
      | errorEx code position => cases hm
      | _ => cases hf
    | true =>
      obtain ⟨hs, text, rfl⟩ := h
      cases f with
      | tokenc data bytes =>
        cases hf
        cases hm
        exact ⟨c, ts, vs, hr', hc', hrun, hs, text ++ [bytes], by simp⟩
      | tokencEnd position =>
        cases hf
        obtain ⟨s, hs, heq⟩ := Option.map_eq_some_iff.mp hm
        cases heq
        refine ⟨_, ts ++ [.string text], vs ++ textCalls text, hr', hc', ?_, by simp [textCalls]⟩
        rw [Transducer.run_append_ok _ hrun, Transducer.run_singleton,
          Automaton.machine_step_ok.mpr]
        rw [Automaton.lexeme, hs]
        rfl
      | errorEx code position => cases hm
      | _ => cases hf

lemma run (h : Seen cfg inside us p) {calls : List (LexerCall δ)} {next : Bool}
    (hcalls : calls.foldlM phase inside = some next) :
    Continues cfg us (((parserMachine cfg).run p calls).1,
      ((parserMachine cfg).run p calls).2.toOption) fun _ => next := by
  induction calls generalizing inside us p with
  | nil =>
    obtain rfl : inside = next := by simpa using hcalls
    change Seen cfg inside (us ++ []) p
    rwa [List.append_nil]
  | cons f calls ih =>
    rw [List.foldlM_cons] at hcalls
    obtain ⟨b, hf, hcalls⟩ := Option.bind_eq_some_iff.mp hcalls
    rcases h.step hstatic hf with ⟨vs, q, hs, hq⟩ | ⟨u, code, hs, hu⟩
    · have hrest := ih hq hcalls
      rw [Transducer.run_cons_ok (parserMachine cfg) hs]
      rcases hr : (parserMachine cfg).run q calls with ⟨ws, code | q'⟩
      · rw [hr] at hrest
        obtain ⟨ws', u, b, r, rfl, hu, hseen⟩ := hrest
        exact ⟨vs ++ ws', u, b, r, by simp, hu, by rwa [← List.append_assoc]⟩
      · rw [hr] at hrest
        change Seen cfg next (us ++ (vs ++ ws)) q'
        rw [← List.append_assoc]
        exact hrest
    · rw [Transducer.run_cons_error (parserMachine cfg) hs]
      exact ⟨[], u, inside, p, rfl, hu, by rwa [List.append_nil]⟩

end Seen

section Session

variable [DoubleArith δ] (hbignum : cfg.bignum = false) (hstatic : cfg.dynamicStack = false)

/-- An application that pushes some chunks and then finalizes, up to the first non-zero result. -/
def parse (cfg : Config) (chunks : List (List UInt8)) : ParserProgram δ :=
  (pushAll cfg (.zero cfg) chunks).bind fun a => if a.1 ≠ 0 then .done a else embedjsonFinalize cfg a.2

variable (cfg) in
lemma parse_relaysCode (chunks : List (List UInt8)) :
    RelaysCode (parse cfg chunks : ParserProgram δ) :=
  (pushAll_relaysCode (.zero cfg) chunks).andThen fun a => embedjsonFinalize_relaysCode a.2

def Goes (cfg : Config) (us : List (UserCall δ)) (x : List (UserCall δ) × Option (ℤ × Parser)) :
    Prop :=
  (∀ a, x.2 = some a → a.1 = 0 ∧ a.2.lexer.state ≠ .inBigNumber) ∧
    Continues cfg us (x.1, x.2.map Prod.snd) fun q => q.lexer.inside

omit [DoubleArith δ] in
lemma Goes.followedBy {x : List (UserCall δ) × Option (ℤ × Parser)}
    {k : ℤ × Parser → List (UserCall δ) × Option (ℤ × Parser)} (hx : Goes cfg us x)
    (hk : ∀ q : Parser, q.lexer.state ≠ .inBigNumber → Seen cfg q.lexer.inside (us ++ x.1) q →
      Goes cfg (us ++ x.1) (k (0, q))) : Goes cfg us (Program.followedBy x k) := by
  obtain ⟨vs, _ | a⟩ := x
  · exact hx
  · obtain ⟨code, q⟩ := a
    obtain ⟨rfl, hq⟩ := hx.1 _ rfl
    obtain ⟨hlex, hrest⟩ := hk q hq hx.2
    rw [followedBy_some]
    refine ⟨hlex, ?_⟩
    unfold Continues at hrest ⊢
    cases hr : (k (0, q)).2.map Prod.snd with
    | some r =>
      rw [hr] at hrest
      simpa using hrest
    | none =>
      rw [hr] at hrest
      obtain ⟨ws, u, b, r, hws, hu, hseen⟩ := hrest
      exact ⟨vs ++ ws, u, b, r, by simp [show (k (0, q)).1 = _ from hws], hu, by simpa using hseen⟩

include hbignum hstatic

lemma Seen.push (h : Seen cfg p.lexer.inside us p) (hs : p.lexer.state ≠ .inBigNumber)
    (chunk : List UInt8) :
    Goes cfg us (observe UserCall.isError (embedjsonPush (δ := δ) cfg p chunk)) := by
  obtain ⟨next, hcalls, hend⟩ := embedjsonLexerPush_inOrder (δ := δ) hbignum hs chunk
  have hrun := h.run hstatic hcalls
  have hlast := observe_none (E := LexerCall.isError) (p := embedjsonLexerPush (δ := δ) cfg chunk p.lexer)
  have hzero (l : List (LexerCall δ)) (a : ℤ × Lexer)
      (ho : observe LexerCall.isError (embedjsonLexerPush cfg chunk p.lexer) = (l, some a)) :
      a.1 = 0 := (embedjsonLexerPush_failsFast p.lexer).observe_eq ho
  rw [observe_push, feed_eq_run]
  generalize observe LexerCall.isError (embedjsonLexerPush (δ := δ) cfg chunk p.lexer) = x
    at hcalls hend hrun hlast hzero
  obtain ⟨l, r⟩ := x
  rcases hr : (parserMachine cfg).run p l with ⟨vs, code | q⟩
  · rw [hr] at hrun
    rw [show (Except.error code : Except ErrorCode Parser).toOption = none from rfl, followedBy_none]
    exact ⟨by simp, hrun⟩
  · rw [hr] at hrun
    rw [show (Except.ok q : Except ErrorCode Parser).toOption = some q from rfl, followedBy_some]
    cases r with
    | none =>
      -- The machine does not get past an error of the lexer.
      obtain ⟨m, f, rfl, hf, -⟩ := hlast rfl
      rcases hm : (parserMachine cfg).run p m with ⟨ws, code | t⟩
      · rw [Transducer.run_append_error _ hm] at hr
        cases hr
      · rw [Transducer.run_append_ok _ hm, Transducer.run_singleton] at hr
        cases f with
        | errorEx code position => cases congrArg Prod.snd hr
        | _ => cases hf
    | some a =>
      obtain ⟨rfl, hbig⟩ := hend a rfl
      refine ⟨?_, ?_⟩
      · rintro - ⟨⟩
        exact ⟨hzero l a rfl, hbig⟩
      · change Seen cfg a.2.inside (us ++ (vs ++ [])) (q.setLexer a.2)
        rw [List.append_nil]
        exact Seen.setLexer hrun a.2

lemma Seen.pushAll (h : Seen cfg p.lexer.inside us p) (hs : p.lexer.state ≠ .inBigNumber)
    (chunks : List (List UInt8)) :
    Goes cfg us (observe UserCall.isError (pushAll (δ := δ) cfg p chunks)) := by
  induction chunks generalizing us p with
  | nil =>
    refine ⟨?_, ?_⟩
    · rintro - ⟨⟩
      exact ⟨rfl, hs⟩
    · change Seen cfg p.lexer.inside (us ++ []) p
      rwa [List.append_nil]
  | cons chunk chunks ih =>
    rw [Embedjson.pushAll, observe_bind]
    refine (h.push hbignum hstatic hs chunk).followedBy fun q hq hseen => ?_
    rw [if_neg (not_not_intro rfl)]
    exact ih hseen hq

omit hbignum

lemma Seen.finalize (h : Seen cfg p.lexer.inside us p) (hs : p.lexer.state ≠ .inBigNumber) :
    match observe UserCall.isError (embedjsonFinalize (δ := δ) cfg p) with
    | (vs, some _) => ∃ v : Json δ, us ++ vs = traversal v
    | (vs, none) => ∃ ws u b q, vs = ws ++ [u] ∧ u.isError = true ∧ Seen cfg b (us ++ ws) q := by
  obtain ⟨next, hcalls⟩ := embedjsonLexerFinalize_inOrder (δ := δ) cfg hs
  have hrun := h.run hstatic hcalls
  rw [observe_finalize, feed_eq_run]
  generalize (observe LexerCall.isError (embedjsonLexerFinalize (δ := δ) cfg p.lexer)).1 = l at hrun
  rcases hr : (parserMachine cfg).run p l with ⟨vs, code | q⟩
  · rw [hr] at hrun
    exact hrun
  · rw [hr] at hrun
    have hseen : Seen cfg next (us ++ vs) q := hrun
    rw [show (Except.ok q : Except ErrorCode Parser).toOption = some q from rfl, followedBy_some,
      endOfInput]
    by_cases hq : q.state = .done
    · rw [if_neg (not_not_intro hq), List.append_nil]
      exact hseen.eq_traversal hq
    · rw [if_pos hq]
      exact ⟨vs, _, next, q, rfl, rfl, hseen⟩

include hbignum

lemma observe_parse (chunks : List (List UInt8)) :
    match observe UserCall.isError (parse (δ := δ) cfg chunks) with
    | (vs, some _) => ∃ v : Json δ, vs = traversal v
    | (vs, none) => ∃ ws u, vs = ws ++ [u] ∧ u.isError = true ∧ ∃ v : Json δ, ws <+: traversal v := by
  have hpush := (Seen.zero hstatic).pushAll (δ := δ) hbignum hstatic nofun chunks
  rw [parse, observe_bind]
  generalize observe UserCall.isError (pushAll (δ := δ) cfg (.zero cfg) chunks) = x at hpush
  obtain ⟨us, _ | a⟩ := x
  · obtain ⟨-, ws, u, b, q, rfl, hu, hseen⟩ := hpush
    exact ⟨ws, u, rfl, hu, hseen.events_extend⟩
  · obtain ⟨code, q⟩ := a
    obtain ⟨hq, hseen⟩ := hpush
    obtain ⟨rfl, hbig⟩ := hq _ rfl
    rw [followedBy_some, if_neg (not_not_intro rfl)]
    have hend := hseen.finalize hstatic hbig
    rcases ho : observe UserCall.isError (embedjsonFinalize (δ := δ) cfg q) with ⟨vs, _ | a⟩
    · rw [ho] at hend
      obtain ⟨ws, u, b, r, rfl, hu, hseen⟩ := hend
      exact ⟨us ++ ws, u, by simp, hu, hseen.events_extend⟩
    · rw [ho] at hend
      exact hend

variable (cfg) in
/-- Up to the first error and the first non-zero result, the callbacks are the beginning of the
traversal of a value. They are the whole traversal of one value when the parser succeeds. -/
theorem sax_stream (answer : List (UserCall δ) → UserCall δ → ℤ) (chunks : List (List UInt8)) :
    (∃ v : Json δ, (run answer (parse cfg chunks) []).1.takeWhile (!·.isError) <+: traversal v) ∧
      ((run answer (parse cfg chunks) []).2.1 = 0 →
        (∀ u ∈ (run answer (parse cfg chunks) []).1, u.isError = false) →
        ∃! v : Json δ, (run answer (parse cfg chunks) []).1 = traversal v) := by
  have hobs := observe_parse (δ := δ) hbignum hstatic chunks
  have hfast := parse_relaysCode (δ := δ) cfg chunks
  have hpre := hfast.run_isPrefix (E := UserCall.isError) answer []
  constructor
  · rcases ho : observe UserCall.isError (parse (δ := δ) cfg chunks) with ⟨vs, _ | a⟩
    · rw [ho] at hobs hpre
      obtain ⟨ws, u, rfl, hu, v, hv⟩ := hobs
      refine ⟨v, hpre.trans (List.IsPrefix.trans ?_ hv)⟩
      rw [List.takeWhile_append]
      split_ifs
      · simp [hu]
      · exact List.takeWhile_prefix _
    · rw [ho] at hobs hpre
      obtain ⟨v, rfl⟩ := hobs
      exact ⟨v, hpre.trans (List.takeWhile_prefix _)⟩
  · intro hzero herr
    have ho := hfast.observe_of_run hzero herr
    rw [ho] at hobs
    obtain ⟨v, hv⟩ := hobs
    exact ⟨v, hv, fun w hw => traversal_injective (hw.symm.trans hv)⟩

end Session

theorem sax_stream_array :
    ∃! v : Json ℚ, (run (accept UserCall.isError) (parse .default [[91, 49], [93]]) []).1 =
      traversal v :=
  (sax_stream .default rfl rfl (accept UserCall.isError) [[91, 49], [93]]).2 (by decide)
    (by decide)

/-- The text `1"a"` in an application that answers zero even to errors. -/
theorem sax_stream_ignored_error :
    (run (fun _ _ => 0) (pushAll (δ := ℚ) .default (.zero .default) [[49, 34, 97, 34]]) []).2.1 = 0 ∧
      ¬∃ v : Json ℚ, (run (fun _ _ => 0) (pushAll .default (.zero .default) [[49, 34, 97, 34]])
        []).1.filter (!·.isError) <+: traversal v := by
  have hcalls : (run (fun _ _ => 0) (pushAll (δ := ℚ) .default (.zero .default)
      [[49, 34, 97, 34]]) []).1.filter (!·.isError) = [.int 1, .stringChunk [97], .stringEnd] := by
    decide
  refine ⟨by decide, ?_⟩
  rintro ⟨v, hv⟩
  rw [hcalls] at hv
  cases v <;> simp [traversal, textCalls] at hv

end Embedjson
