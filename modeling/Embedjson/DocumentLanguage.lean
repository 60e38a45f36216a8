import Embedjson.Acceptance
import Embedjson.Switches
import Embedjson.TextLanguage

namespace Embedjson

open Foundations Foundations.Program Foundations.Utf8 Json

variable {δ : Type} [DoubleArith δ] {cfg : Config} {bytes : List UInt8} {chunks : List (List UInt8)}
  {calls : List (LexerCall δ)} {us : List (UserCall δ)}

def ReadsDocument (cfg : Config) (bytes : List UInt8) (calls : List (LexerCall δ))
    (us : List (UserCall δ)) : Prop :=
  ∃ s front final p, (scanner cfg).run ⟨.zero, 0⟩ bytes = (front, .ok s) ∧
    finalCalls cfg s.lex = some final ∧ calls = front ++ final ∧
    (parserMachine cfg).run (.zero cfg) calls = (us, .ok p) ∧ p.state = .done

lemma ReadsDocument.unique {calls' : List (LexerCall δ)} {us' : List (UserCall δ)}
    (h : ReadsDocument cfg bytes calls us) (h' : ReadsDocument cfg bytes calls' us') : us = us' := by
  obtain ⟨s, front, final, p, hfront, hfinal, rfl, hcalls, -⟩ := h
  obtain ⟨s', front', final', p', hfront', hfinal', rfl, hcalls', -⟩ := h'
  cases hfront.symm.trans hfront'
  cases hfinal.symm.trans hfinal'
  cases hcalls.symm.trans hcalls'
  rfl

section Finalize

variable {p : Parser} {final : List (LexerCall δ)}

lemma observe_finalize_none (h : (finalCalls cfg p.lexer : Option (List (LexerCall δ))) = none) :
    (observe UserCall.isError (embedjsonFinalize (δ := δ) cfg p)).2 = none := by
  have hlexer := observe_finalCalls (δ := δ) cfg p.lexer
  rw [h] at hlexer
  obtain ⟨code, hlexer⟩ := hlexer
  rw [observe_finalize, hlexer, feed_cons]
  rfl

lemma observe_finalize_some (h : finalCalls cfg p.lexer = some final) :
    observe UserCall.isError (embedjsonFinalize (δ := δ) cfg p) =
      followedBy (((parserMachine cfg).run p final).1,
        ((parserMachine cfg).run p final).2.toOption) endOfInput := by
  have hlexer := observe_finalCalls (δ := δ) cfg p.lexer
  rw [h] at hlexer
  rw [observe_finalize, hlexer, feed_eq_run]

lemma finalCalls_nonempty (h : finalCalls cfg p.lexer = some final) :
    ∀ f ∈ final, f.Nonempty := by
  cases hs : p.lexer.state <;> simp only [finalCalls, hs, Option.some.injEq, reduceCtorEq] at h
  all_goals
    subst h
    simp [LexerCall.Nonempty]

end Finalize

lemma observe_parse_reads (hdebug : cfg.debug = false) (chunks : List (List UInt8)) :
    (∃ l q calls us, observe UserCall.isError (parse (δ := δ) cfg chunks) = (l, some (0, q)) ∧
      ReadsDocument cfg chunks.flatten calls us ∧ view l = view us ∧
      ∃ p lex, (parserMachine cfg).run (.zero cfg) calls = (us, .ok p) ∧ q = p.setLexer lex) ∨
    ((observe UserCall.isError (parse (δ := δ) cfg chunks)).2 = none ∧
      ∀ (calls : List (LexerCall δ)) us, ¬ReadsDocument cfg chunks.flatten calls us) := by
  have hpush := pushAll_reports (δ := δ) hdebug (.zero cfg) .zero 0 chunks
  rw [parse, observe_bind]
  generalize observe UserCall.isError (pushAll (δ := δ) cfg (.zero cfg) chunks) = x at hpush
  obtain ⟨vs, r⟩ := x
  rcases hrun : (embedjson (δ := δ) cfg).run (⟨.zero, 0⟩, .zero cfg) chunks.flatten with
    ⟨os, code | ⟨s, q⟩⟩
  · have hpush' : Reports .zero (vs, r) (os, .error code) := hrun ▸ hpush
    obtain ⟨rfl, -⟩ := hpush'
    refine .inr ⟨rfl, ?_⟩
    rintro _ us ⟨s, front, final, p, hfront, -, rfl, hcalls, -⟩
    obtain ⟨ps, -, t, hps, -, -⟩ := Transducer.run_append_eq_ok _ hcalls
    cases hrun.symm.trans ((Transducer.andThen_run_eq_ok _ _).mpr ⟨front, hfront, hps⟩)
  · have hpush' : Reports .zero (vs, r) (os, .ok (s, q)) := hrun ▸ hpush
    obtain ⟨t, rfl, rfl, hview, -⟩ := hpush'
    obtain ⟨front, hfront, hos⟩ := (Transducer.andThen_run_eq_ok _ _).mp hrun
    rw [followedBy_some, if_neg (not_not_intro rfl)]
    cases hfinal : (finalCalls cfg s.lex : Option (List (LexerCall δ))) with
    | none =>
      refine .inr ⟨observe_finalize_none (p := t.setLexer s.lex) hfinal, ?_⟩
      rintro _ us ⟨s', front', final, p, hfront', hfinal', -⟩
      cases hfront.symm.trans hfront'
      cases hfinal.symm.trans hfinal'
    | some final =>
      rw [observe_finalize_some (p := t.setLexer s.lex) hfinal]
      obtain ⟨halike, hres⟩ := run_forget cfg (m := final) rfl
        (finalCalls_nonempty (p := t.setLexer s.lex) hfinal) (t.setLexer .zero) s.lex
      rw [show (t.setLexer .zero).setLexer s.lex = t.setLexer s.lex from rfl] at halike hres
      rcases hrest : (parserMachine cfg).run (t.setLexer .zero) final with ⟨ws, e | p⟩
      · rw [hrest] at hres
        rw [show ((parserMachine cfg).run (t.setLexer s.lex) final).2 = _ from hres]
        refine .inr ⟨rfl, ?_⟩
        rintro _ us ⟨s', front', final', p, hfront', hfinal', rfl, hcalls, -⟩
        cases hfront.symm.trans hfront'
        cases hfinal.symm.trans hfinal'
        rw [Transducer.run_append_ok _ hos, hrest] at hcalls
        cases hcalls
      · rw [hrest] at halike hres
        rw [show ((parserMachine cfg).run (t.setLexer s.lex) final).2 = _ from hres]
        have hcalls : (parserMachine cfg).run (.zero cfg) (front ++ final) = (os ++ ws, .ok p) := by
          rw [Transducer.run_append_ok _ hos, hrest]
        by_cases hdone : p.state = .done
        · have hend : endOfInput (δ := δ) (p.setLexer s.lex) = ([], some (0, p.setLexer s.lex)) :=
            if_neg (not_not_intro hdone)
          rw [Except.map, Except.toOption, followedBy_some, hend, List.append_nil]
          refine .inl ⟨_, p.setLexer s.lex, _, os ++ ws, rfl, ⟨s, front, final, p, hfront, hfinal, rfl,
            hcalls, hdone⟩, ?_, p, s.lex, hcalls, rfl⟩
          rw [view_append, view_append, view_eq_of_alike halike]
          exact congrArg (· ++ _) hview
        · have hend : endOfInput (δ := δ) (p.setLexer s.lex) =
              ([.error .insufficientInput .null], none) := if_pos hdone
          refine .inr ⟨by rw [Except.map, Except.toOption, followedBy_some, hend], ?_⟩
          rintro _ us ⟨s', front', final', p', hfront', hfinal', rfl, hcalls', hdone'⟩
          cases hfront.symm.trans hfront'
          cases hfinal.symm.trans hfinal'
          cases hcalls.symm.trans hcalls'
          exact hdone hdone'

lemma reads_iff (hbits : 8 ≤ cfg.intBits) (hstatic : cfg.dynamicStack = false)
    (hutf8 : cfg.validateUtf8 = true → WellFormed bytes) :
    (∃ calls, (∀ p v, .tokenbnBegin p v ∉ calls) ∧ ReadsDocument cfg bytes calls us) ↔
      ∃ v : Json δ, Tokenises cfg bytes (serialise .implemented v) ∧ depth v ≤ cfg.stackLimit ∧
        us = traversal v := by
  have hdone (ts : List (Lexeme δ)) : (∃ c, cfg.automaton.machine.run .zero ts = (us, .ok c) ∧
      c.state = .done) ↔ ∃ v, ts = serialise .implemented v ∧ depth v ≤ cfg.stackLimit ∧
        us = traversal v := run_done_iff (d := .implemented)
  constructor
  · rintro ⟨_, hbig, s, front, final, p, hfront, hfinal, rfl, hcalls, hstate⟩
    obtain ⟨ts, hts, hforget⟩ := exists_tokens hbits hutf8 hfront hfinal fun q w hmem =>
      hbig q w (List.mem_append_left final hmem)
    have hfollows := run_lexemes_follows cfg (represents_zero cfg hstatic) rfl hstatic hforget
    rcases hrun : cfg.automaton.machine.run .zero ts with ⟨vs, e | c⟩
    · rw [hrun] at hfollows
      obtain ⟨os, code, hfails⟩ := hfollows
      cases hcalls.symm.trans hfails
    · rw [hrun] at hfollows
      obtain ⟨p', hp', hr, -⟩ := hfollows
      cases hcalls.symm.trans hp'
      obtain ⟨v, rfl, hdepth, hus⟩ := (hdone ts).mp ⟨c, hrun, hr.state.symm.trans hstate⟩
      exact ⟨v, hts, hdepth, hus⟩
  · rintro ⟨v, hv, hdepth, rfl⟩
    obtain ⟨c, hrun, hstate⟩ := (hdone _).mpr ⟨v, rfl, hdepth, rfl⟩
    obtain ⟨front, s, final, hfront, hfinal, hforget⟩ :=
      hv.scans hbits (s := ⟨.zero, 0⟩) (ready_zero cfg)
    have hfollows := run_lexemes_follows cfg (represents_zero cfg hstatic) rfl hstatic hforget
    rw [hrun] at hfollows
    obtain ⟨p, hp, hr, -⟩ := hfollows
    refine ⟨_, fun q w hmem => ?_, s, front, final, p, hfront, hfinal, rfl, hp, ?_⟩
    · have hforget' := List.mem_map_of_mem (f := LexerCall.forget) hmem
      rw [hforget] at hforget'
      exact lexeme_not_big hforget'
    · exact hr.state.trans hstate

section Pieces

def Lexeme.Bytewise : Lexeme δ → Prop
  | .string text => ∀ bytes ∈ text, ∃ b, bytes = [b]
  | _ => True

omit [DoubleArith δ] in
lemma view_textCalls {text : Text} (h : ∀ bytes ∈ text, ∃ b, bytes = [b]) :
    view (textCalls text) = (textCalls text : List (UserCall δ)) := by
  have hchunks : view (text.map .stringChunk) = (text.map .stringChunk : List (UserCall δ)) := by
    induction text with
    | nil => rfl
    | cons bytes text ih =>
      obtain ⟨⟨b, rfl⟩, htext⟩ := List.forall_mem_cons.mp h
      exact congrArg (_ :: ·) (ih htext)
  rw [textCalls, List.cons_append, ← List.singleton_append, view_append, view_append, hchunks]
  rfl

omit [DoubleArith δ] in
lemma view_token {A : Automaton} {c c' : Conf} {t : Tok} (h : A.token c t = some (us, c')) :
    view us = us := by
  have hopen {value : StackValue} {u : UserCall δ} {state : ParserState} (hu : view [u] = [u])
      (h : A.openValue c value u state = some (us, c')) : view us = us := by
    rw [Automaton.openValue] at h
    split_ifs at h
    cases h
    exact hu
  have hprimitive {u : UserCall δ} (hu : view [u] = [u])
      (h : Automaton.primitive c u = some (us, c')) : view us = us := by
    obtain ⟨s, -, heq⟩ := Option.map_eq_some_iff.mp h
    cases heq
    exact hu
  cases t with
  | openCurlyBracket => exact hopen rfl h
  | openBracket => exact hopen rfl h
  | true => exact hprimitive rfl h
  | false => exact hprimitive rfl h
  | null => exact hprimitive rfl h
  | closeCurlyBracket | closeBracket | comma | colon =>
    unfold Automaton.token at h
    cases hc : c.state <;> rw [hc] at h <;> cases h <;> rfl

omit [DoubleArith δ] in
lemma view_lexeme {A : Automaton} {c c' : Conf} {x : Lexeme δ} (hx : x.Bytewise)
    (h : A.lexeme c x = some (us, c')) : view us = us := by
  cases x with
  | string text =>
    obtain ⟨s, -, heq⟩ := Option.map_eq_some_iff.mp h
    cases heq
    exact view_textCalls hx
  | int v =>
    obtain ⟨s, -, heq⟩ := Option.map_eq_some_iff.mp h
    cases heq
    rfl
  | double v =>
    obtain ⟨s, -, heq⟩ := Option.map_eq_some_iff.mp h
    cases heq
    rfl
  | tok t => exact view_token h

lemma Tokenises.bytewise {ts : List (Lexeme δ)} (h : Tokenises cfg bytes ts) :
    ∀ x ∈ ts, x.Bytewise := by
  induction h with
  | nil => exact List.forall_mem_nil _
  | space _ _ ih => exact ih
  | token hx _ ih =>
    refine List.forall_mem_cons.mpr ⟨?_, ih⟩
    cases hx with
    | string _ => simp [Lexeme.Bytewise]
    | _ => exact trivial
  | @number n _ _ _ _ _ ih =>
    refine List.forall_mem_cons.mpr ⟨?_, ih⟩
    unfold Numeral.lexeme
    split_ifs
    · exact trivial
    · exact trivial
  | stub _ => exact List.forall_mem_singleton.mpr trivial

lemma view_traversal {v : Json δ} (h : Tokenises cfg bytes (serialise .implemented v)) :
    view (traversal v) = traversal v := by
  obtain ⟨c, hrun, -⟩ := run_done_iff.mpr ⟨v, rfl, le_rfl, rfl⟩
  refine Transducer.run_invariant _ (P := fun xs os _ => (∀ x ∈ xs, x.Bytewise) → view os = os)
    (fun _ => rfl) (fun xs os t x ps u hos hstep hxs => ?_) hrun h.bytewise
  obtain ⟨hxs, hx⟩ := List.forall_mem_append.mp hxs
  rw [view_append, hos hxs, view_lexeme (hx x List.mem_cons_self)
    (Automaton.machine_step_ok.mp hstep)]

end Pieces

section Runs

variable {answer : List (UserCall δ) → UserCall δ → ℤ}

/-- The run succeeds with the callbacks `us`, a string byte by byte. -/
def Parses (cfg : Config) (answer : List (UserCall δ) → UserCall δ → ℤ)
    (chunks : List (List UInt8)) (us : List (UserCall δ)) : Prop :=
  (run answer (parse cfg chunks) []).2.1 = 0 ∧ view (run answer (parse cfg chunks) []).1 = us

lemma exists_big {s : Scan} (h : (scanner cfg).run ⟨.zero, 0⟩ chunks.flatten = (calls, .ok s))
    {p : Pointer} {v : ℤ} (hmem : .tokenbnBegin p v ∈ calls) :
    ∃ position w, .tokenbnBegin position w ∈ (lexerCalls cfg .zero chunks : List (LexerCall δ)) := by
  have htells := lexerPushAll_tells (δ := δ) cfg .zero 0 chunks
  rw [h] at htells
  have hforget := List.mem_map_of_mem (f := LexerCall.forget) hmem
  rw [← htells.2.1, List.mem_flatMap] at hforget
  obtain ⟨f, hf, hpiece⟩ := hforget
  have hbig : ∃ position w, f = .tokenbnBegin position w := by
    cases f <;> simp [LexerCall.pieces, LexerCall.forget, charCall, bignumCall] at hpiece ⊢
  obtain ⟨position, w, rfl⟩ := hbig
  exact ⟨position, w, hf⟩

lemma not_big_of_parse {l : List (UserCall δ)} {code : ℤ} {q : Parser}
    (h : observe UserCall.isError (parse cfg chunks) = (l, some (code, q)))
    (hreads : ReadsDocument cfg chunks.flatten calls us) (p : Pointer) (v : ℤ) :
    .tokenbnBegin p v ∉ calls := by
  obtain ⟨s, front, final, _, hfront, hfinal, rfl, -⟩ := hreads
  rw [List.mem_append, not_or]
  constructor
  · intro hmem
    obtain ⟨t, vs, ws, hpush, hend, -⟩ := observe_parse_some h
    have hdoomed : Doomed t.lexer.group t :=
      doomed_pushAll (p := .zero cfg) (.inr (exists_big hfront hmem)) hpush
    cases (finalize_doomed hdoomed).symm.trans (congrArg Prod.snd hend)
  · cases hs : s.lex.state <;> simp only [finalCalls, hs, Option.some.injEq, reduceCtorEq] at hfinal
    all_goals
      subst hfinal
      simp

variable (chunks) in
lemma observe_parse_iff (hdebug : cfg.debug = false) (hstatic : cfg.dynamicStack = false)
    (hbits : 8 ≤ cfg.intBits) (hutf8 : cfg.validateUtf8 = true → WellFormed chunks.flatten)
    (us : List (UserCall δ)) :
    (∃ l q, observe UserCall.isError (parse cfg chunks) = (l, some (0, q)) ∧ view l = us) ↔
      ∃ v : Json δ, Tokenises cfg chunks.flatten (serialise .implemented v) ∧
        depth v ≤ cfg.stackLimit ∧ us = traversal v := by
  rw [← reads_iff hbits hstatic hutf8]
  rcases observe_parse_reads (δ := δ) hdebug chunks with
    ⟨l, q, calls, vs, hobserve, hvs, hview, -⟩ | ⟨hnone, hno⟩
  · have hbig := not_big_of_parse hobserve hvs
    obtain ⟨v, hv, -, heq⟩ := (reads_iff hbits hstatic hutf8).mp ⟨calls, hbig, hvs⟩
    have hl : view l = vs := by rw [hview, heq, view_traversal hv]
    constructor
    · rintro ⟨_, _, hobserve', rfl⟩
      cases hobserve.symm.trans hobserve'
      exact ⟨calls, hbig, hl ▸ hvs⟩
    · rintro ⟨calls', -, hus⟩
      exact ⟨l, q, hobserve, hl.trans (hvs.unique hus)⟩
  · constructor
    · rintro ⟨_, _, hobserve, -⟩
      cases hnone.symm.trans (congrArg Prod.snd hobserve)
    · rintro ⟨calls, -, hreads⟩
      exact absurd hreads (hno calls us)

lemma run_parse_iff (hA : Accepting UserCall.isError answer) {l : List (UserCall δ)} {q : Parser} :
    run answer (parse cfg chunks) [] = (l, 0, q) ↔
      observe UserCall.isError (parse cfg chunks) = (l, some (0, q)) :=
  (parse_relaysCode cfg chunks).run_eq_iff hA [] rfl

lemma parses_iff_observe (hA : Accepting UserCall.isError answer) (us : List (UserCall δ)) :
    Parses cfg answer chunks us ↔
      ∃ l q, observe UserCall.isError (parse cfg chunks) = (l, some (0, q)) ∧ view l = us := by
  constructor
  · rintro ⟨hzero, hview⟩
    exact ⟨_, _, (run_parse_iff hA).mp (Prod.ext rfl (Prod.ext hzero rfl)), hview⟩
  · rintro ⟨l, q, hobserve, hview⟩
    rw [Parses, (run_parse_iff hA).mpr hobserve]
    exact ⟨rfl, hview⟩

lemma parses_iff_reads (hdebug : cfg.debug = false) (hA : Accepting UserCall.isError answer)
    (us : List (UserCall δ)) : Parses cfg answer chunks us ↔
      ∃ (calls : List (LexerCall δ)) (vs : List (UserCall δ)),
        ReadsDocument cfg chunks.flatten calls vs ∧ view vs = us := by
  rw [parses_iff_observe hA]
  rcases observe_parse_reads (δ := δ) hdebug chunks with
    ⟨l, q, calls, vs, hobserve, hvs, hview, -⟩ | ⟨hnone, hno⟩
  · constructor
    · rintro ⟨_, _, hobserve', rfl⟩
      cases hobserve.symm.trans hobserve'
      exact ⟨calls, vs, hvs, hview.symm⟩
    · rintro ⟨calls', vs', hvs', rfl⟩
      exact ⟨l, q, hobserve, hview.trans (congrArg view (hvs.unique hvs'))⟩
  · constructor
    · rintro ⟨_, _, hobserve, -⟩
      cases hnone.symm.trans (congrArg Prod.snd hobserve)
    · rintro ⟨calls, vs, hreads, -⟩
      exact absurd hreads (hno calls vs)

theorem parses_iff (hdebug : cfg.debug = false) (hstatic : cfg.dynamicStack = false)
    (hbits : 8 ≤ cfg.intBits) (hA : Accepting UserCall.isError answer)
    (hutf8 : cfg.validateUtf8 = true → WellFormed chunks.flatten) (us : List (UserCall δ)) :
    Parses cfg answer chunks us ↔ ∃ v : Json δ,
      Tokenises cfg chunks.flatten (serialise .implemented v) ∧ depth v ≤ cfg.stackLimit ∧
        us = traversal v := by
  rw [parses_iff_observe hA]
  exact observe_parse_iff chunks hdebug hstatic hbits hutf8 us

end Runs

/-- The object `{"a":[]"b":1}`, which has no comma behind the empty array. -/
theorem parses_iff_object :
    ∃ v : Json ℚ, Tokenises .default
        [123, 34, 97, 34, 58, 91, 93, 34, 98, 34, 58, 49, 125] (serialise .implemented v) ∧
      depth v ≤ Config.default.stackLimit ∧
      [.objectBegin, .stringBegin, .stringChunk [97], .stringEnd, .arrayBegin, .arrayEnd,
        .stringBegin, .stringChunk [98], .stringEnd, .int 1, .objectEnd] = traversal v :=
  (parses_iff rfl rfl (by decide) (accepting_accept _)
    (fun _ => ⟨"\x7b\"a\":[]\"b\":1\x7d".toList, by decide⟩) _).mp
      (⟨by decide, by decide⟩ : Parses .default (accept UserCall.isError)
        [[123, 34, 97, 34], [58, 91, 93, 34, 98, 34, 58, 49, 125]] _)

end Embedjson
