import Embedjson.Parser.Machine

/-! The pushes of the parser run the scanner and the parser machine in a row, so that the way in which
the input is cut into chunks does not matter. -/

namespace Embedjson

open Foundations Foundations.Program

variable {δ : Type} {cfg : Config} {base : ℤ}

variable (base) in
lemma cut_of_not_isChunk {f : LexerCall δ} (h : f.isChunk = false) :
    ∃ g, f.cut base = [g] ∧ f.forget = g.forget := by
  cases f with
  | tokenc | tokenbn => simp [LexerCall.isChunk] at h
  | _ => exact ⟨_, rfl, rfl⟩

lemma parserStep_tokenc (hdebug : cfg.debug = false) (p : Parser) (data : Pointer)
    (bytes : List UInt8) :
    parserStep cfg p (.tokenc data bytes : LexerCall δ) = ([.stringChunk bytes], .ok p) := by
  simp [parserStep, onLexerCall, embedjsonTokenc, checkState, hdebug, returnCall, observe,
    UserCall.isError]

lemma parserStep_tokenbn (hdebug : cfg.debug = false) (p : Parser) (data : Pointer)
    (bytes : List UInt8) :
    parserStep cfg p (.tokenbn data bytes : LexerCall δ) = ([.bignumChunk bytes], .ok p) := by
  simp [parserStep, onLexerCall, embedjsonTokenbn, checkState, hdebug, returnCall, observe,
    UserCall.isError]

lemma parserMachine_run_map {A : Type} {f : A → LexerCall δ} {u : A → UserCall δ} {p : Parser}
    (h : ∀ a, parserStep cfg p (f a) = ([u a], .ok p)) (as : List A) :
    (parserMachine cfg).run p (as.map f) = (as.map u, .ok p) := by
  induction as with
  | nil => rfl
  | cons a as ih => rw [List.map_cons, Transducer.run_cons_ok _ (h a), ih]; rfl

lemma parserMachine_run_chars (hdebug : cfg.debug = false) (p : Parser) (bytes : List UInt8) :
    (parserMachine cfg).run p (bytes.map charCall : List (LexerCall δ)) =
      (bytes.map fun b => .stringChunk [b], .ok p) :=
  parserMachine_run_map (fun b => parserStep_tokenc hdebug p .null [b]) bytes

lemma parserMachine_run_bignums (hdebug : cfg.debug = false) (p : Parser) (bytes : List UInt8) :
    (parserMachine cfg).run p (bytes.map bignumCall : List (LexerCall δ)) =
      (bytes.map fun b => .bignumChunk [b], .ok p) :=
  parserMachine_run_map (fun b => parserStep_tokenbn hdebug p .null [b]) bytes

variable (base) in
lemma run_cut (hdebug : cfg.debug = false) {f : LexerCall δ} (hf : f.Nonempty) (p : Parser)
    (lex : Lexer) :
    view (parserStep cfg p f).1 = view ((parserMachine cfg).run (p.setLexer lex) (f.cut base)).1 ∧
      (∀ u ∈ (parserStep cfg p f).1, u.Nonempty) ∧
      ((parserMachine cfg).run (p.setLexer lex) (f.cut base)).2 =
        (parserStep cfg p f).2.map fun t => t.setLexer lex := by
  cases hchunk : f.isChunk with
  | false =>
    obtain ⟨g, hg, hfg⟩ := cut_of_not_isChunk base hchunk
    obtain ⟨hl, hr⟩ := parserStep_alike cfg hfg hf p lex
    rw [hg, Transducer.run_singleton]
    exact ⟨view_eq_of_alike hl, nonempty_of_alike hl, hr⟩
  | true =>
    cases f with
    | tokenc data bytes =>
      rw [LexerCall.cut, parserMachine_run_chars hdebug, parserStep_tokenc hdebug]
      refine ⟨?_, by simpa [UserCall.Nonempty, LexerCall.Nonempty] using hf, rfl⟩
      simp only [view, List.flatMap_cons, List.flatMap_nil, List.append_nil, UserCall.pieces,
        List.flatMap_map, List.map_cons, List.map_nil]
      exact List.map_eq_flatMap
    | tokenbn data bytes =>
      rw [LexerCall.cut, parserMachine_run_bignums hdebug, parserStep_tokenbn hdebug]
      refine ⟨?_, by simpa [UserCall.Nonempty, LexerCall.Nonempty] using hf, rfl⟩
      simp only [view, List.flatMap_cons, List.flatMap_nil, List.append_nil, UserCall.pieces,
        List.flatMap_map, List.map_cons, List.map_nil]
      exact List.map_eq_flatMap
    | _ => simp [LexerCall.isChunk] at hchunk

variable (base) in
lemma run_cutAll (hdebug : cfg.debug = false) {l : List (LexerCall δ)} (hl : ∀ f ∈ l, f.Nonempty)
    (p : Parser) (lex : Lexer) :
    view ((parserMachine cfg).run p l).1 =
        view ((parserMachine cfg).run (p.setLexer lex) (cutAll base l)).1 ∧
      (∀ u ∈ ((parserMachine cfg).run p l).1, u.Nonempty) ∧
      ((parserMachine cfg).run (p.setLexer lex) (cutAll base l)).2 =
        ((parserMachine cfg).run p l).2.map fun t => t.setLexer lex := by
  induction l generalizing p with
  | nil => exact ⟨rfl, by simp, rfl⟩
  | cons f l ih =>
    obtain ⟨hf, hl⟩ := List.forall_mem_cons.mp hl
    obtain ⟨hv, hne, hr⟩ := run_cut base hdebug hf p lex
    rw [cutAll_cons]
    rcases hs : parserStep cfg p f with ⟨os, code | q⟩
    · rcases hc : (parserMachine cfg).run (p.setLexer lex) (f.cut base) with ⟨ps, r⟩
      rw [hs] at hv hne hr
      rw [hc] at hv hr
      obtain rfl : r = .error code := hr
      rw [Transducer.run_cons_error _ hs, Transducer.run_append_error _ hc]
      exact ⟨hv, hne, rfl⟩
    · rcases hc : (parserMachine cfg).run (p.setLexer lex) (f.cut base) with ⟨ps, r⟩
      rw [hs] at hv hne hr
      rw [hc] at hv hr
      obtain rfl : r = .ok (q.setLexer lex) := hr
      obtain ⟨hv', hne', hr'⟩ := ih hl q
      rw [Transducer.run_cons_ok _ hs, Transducer.run_append_ok _ hc]
      refine ⟨?_, ?_, hr'⟩
      · rw [view_append, view_append, hv', show view os = view ps from hv]
      · simpa [or_imp, forall_and] using ⟨hne, hne'⟩

lemma run_chunks (hdebug : cfg.debug = false) {q : List (LexerCall δ)} (hq : ∀ f ∈ q, f.isChunk)
    (p : Parser) : ∃ os, (parserMachine cfg).run p q = (os, .ok p) := by
  induction q with
  | nil => exact ⟨[], rfl⟩
  | cons f q ih =>
    obtain ⟨hf, hq⟩ := List.forall_mem_cons.mp hq
    obtain ⟨os, ho⟩ := ih hq
    cases f with
    | tokenc data bytes =>
      exact ⟨_, by rw [Transducer.run_cons_ok _ (parserStep_tokenc hdebug p data bytes), ho]⟩
    | tokenbn data bytes =>
      exact ⟨_, by rw [Transducer.run_cons_ok _ (parserStep_tokenbn hdebug p data bytes), ho]⟩
    | _ => simp [LexerCall.isChunk] at hf

variable [DoubleArith δ]

def embedjson (cfg : Config) : Transducer (Scan × Parser) UInt8 (UserCall δ) ErrorCode :=
  (scanner cfg).andThen (parserMachine cfg)

/-- What a push owes to the machine, whose parser keeps the lexer `lex` in its first member. -/
def Reports (lex : Lexer) (x : List (UserCall δ) × Option (ℤ × Parser))
    (y : List (UserCall δ) × Except ErrorCode (Scan × Parser)) : Prop :=
  match y.2 with
  | .ok s => ∃ t : Parser, x.2 = some (0, t.setLexer s.1.lex) ∧ s.2 = t.setLexer lex ∧
      view x.1 = view y.1 ∧ ∀ u ∈ x.1, u.Nonempty
  | .error code => x.2 = none ∧ ∃ l position, x.1 = l ++ [.error code position]

omit [DoubleArith δ] in
variable (cfg) in
lemma observe_onLexerCall_error {f : LexerCall δ} (hf : f.isError = true) (p : Parser) :
    (observe UserCall.isError (onLexerCall cfg f p)).2 = none := by
  cases f with
  | errorEx code position => rfl
  | _ => simp [LexerCall.isError] at hf

lemma observe_push (p : Parser) (chunk : List UInt8) :
    observe UserCall.isError (embedjsonPush cfg p chunk : ParserProgram δ) =
      followedBy (feed UserCall.isError (onLexerCall cfg)
        (observe LexerCall.isError (embedjsonLexerPush cfg chunk p.lexer)).1 p) fun t =>
          ([], (observe LexerCall.isError (embedjsonLexerPush (δ := δ) cfg chunk p.lexer)).2.map
            fun a => (a.1, t.setLexer a.2)) := by
  rw [embedjsonPush, observe_bind,
    observe_interpret onLexerCall_relaysCode fun f hf => observe_onLexerCall_error cfg hf]
  rcases feed UserCall.isError (onLexerCall cfg)
    (observe LexerCall.isError (embedjsonLexerPush cfg chunk p.lexer)).1 p with ⟨os, _ | t⟩
  · rfl
  · cases (observe LexerCall.isError (embedjsonLexerPush (δ := δ) cfg chunk p.lexer)).2 with
    | none => simp [followedBy]
    | some a => simp [Parser.setLexer]

def endOfInput (p : Parser) : List (UserCall δ) × Option (ℤ × Parser) :=
  if p.state ≠ .done then ([.error .insufficientInput .null], none) else ([], some (0, p))

lemma observe_finalize (p : Parser) :
    observe UserCall.isError (embedjsonFinalize cfg p : ParserProgram δ) =
      followedBy (feed UserCall.isError (onLexerCall cfg)
        (observe LexerCall.isError (embedjsonLexerFinalize (δ := δ) cfg p.lexer)).1 p)
        endOfInput := by
  have hlast (r : ℤ) (q : Parser) : observe UserCall.isError
      (if r ≠ 0 then .done (r, q) else if q.state ≠ .done then
        returnErrorEx q .insufficientInput .null else succeed q : ParserProgram δ) =
      if r ≠ 0 then ([], some (r, q)) else endOfInput q := by
    unfold endOfInput
    split_ifs <;> rfl
  rw [embedjsonFinalize, observe_bind,
    observe_interpret onLexerCall_relaysCode fun f hf => observe_onLexerCall_error cfg hf,
    followedBy_assoc]
  simp only [hlast]
  have hzero (r : ℤ)
      (ho : (observe LexerCall.isError (embedjsonLexerFinalize (δ := δ) cfg p.lexer)).2 = some r) :
      r = 0 := (embedjsonLexerFinalize_failsFast p.lexer).observe_eq (Prod.ext rfl ho)
  rcases ho : observe LexerCall.isError (embedjsonLexerFinalize (δ := δ) cfg p.lexer) with ⟨l, _ | r⟩
  · obtain ⟨m, f, hl, hf, -⟩ := observe_none (congrArg Prod.snd ho)
    rw [ho] at hl
    have hfeed : (feed UserCall.isError (onLexerCall cfg) l p).2 = none := by
      rw [show l = _ from hl, feed_append]
      rcases feed UserCall.isError (onLexerCall cfg) m p with ⟨us, _ | q⟩
      · rfl
      · have hq := observe_onLexerCall_error cfg hf q
        simp [feed_cons, followedBy, hq]
    simp [followedBy, hfeed]
  · have hr : r = 0 := hzero r (by rw [ho])
    simp [hr]

theorem embedjsonPush_reports (hdebug : cfg.debug = false) (p : Parser) (lex : Lexer) (base : ℤ)
    (chunk : List UInt8) :
    Reports lex (observe UserCall.isError (embedjsonPush (δ := δ) cfg p chunk))
      ((embedjson cfg).run (⟨p.lexer, base⟩, p.setLexer lex) chunk) := by
  have hl := embedjsonLexerPush_agrees (δ := δ) cfg p.lexer base chunk
  rw [observe_push, feed_eq_run, embedjson]
  generalize observe LexerCall.isError (embedjsonLexerPush (δ := δ) cfg chunk p.lexer) = x at hl
  obtain ⟨l, r⟩ := x
  rcases hs : (scanner (δ := δ) cfg).run ⟨p.lexer, base⟩ chunk with ⟨calls, code | s⟩
  · rw [hs] at hl
    obtain ⟨hne, rfl, l, q, i, rfl, -, -, hcut, hq⟩ := hl
    obtain ⟨-, -, hr⟩ := run_cutAll base hdebug (l := l)
      (fun f hf => hne f (List.mem_append_left _ hf)) p lex
    rcases hp : (parserMachine cfg).run p l with ⟨os, code' | t⟩
    · rw [hp] at hr
      rcases hc : (parserMachine cfg).run (p.setLexer lex) (cutAll base l) with ⟨ps, r⟩
      rw [hc] at hr
      obtain rfl : r = .error code' := hr
      have hrun := Transducer.run_append_error _ hc q
      rw [hcut] at hrun
      rw [Transducer.andThen_run_reject _ _ (by rw [hs]; exact hrun),
        Transducer.run_append_error _ hp]
      exact ⟨rfl, parserMachine_run_error hp⟩
    · rw [hp] at hr
      rcases hc : (parserMachine cfg).run (p.setLexer lex) (cutAll base l) with ⟨ps, r⟩
      rw [hc] at hr
      obtain rfl : r = .ok (t.setLexer lex) := hr
      obtain ⟨qs, hq⟩ := run_chunks hdebug hq (t.setLexer lex)
      have hrun := Transducer.run_append_ok _ hc q
      rw [hcut, hq] at hrun
      rw [Transducer.andThen_run_accept _ _ (by rw [hs]; exact hrun), hs,
        Transducer.run_append_ok _ hp]
      exact ⟨rfl, os, .buffer i, rfl⟩
  · rw [hs] at hl
    obtain ⟨hne, rfl, -, rfl⟩ := hl
    obtain ⟨hv, hu, hr⟩ := run_cutAll base hdebug hne p lex
    rcases hp : (parserMachine cfg).run p l with ⟨os, code | t⟩
    · rw [hp] at hv hu hr
      rcases hc : (parserMachine cfg).run (p.setLexer lex) (cutAll base l) with ⟨ps, r⟩
      rw [hc] at hv hr
      obtain rfl : r = .error code := hr
      rw [Transducer.andThen_run_reject _ _ (by rw [hs]; exact hc)]
      exact ⟨rfl, parserMachine_run_error hp⟩
    · rw [hp] at hv hu hr
      rcases hc : (parserMachine cfg).run (p.setLexer lex) (cutAll base l) with ⟨ps, r⟩
      rw [hc] at hv hr
      obtain rfl : r = .ok (t.setLexer lex) := hr
      rw [Transducer.andThen_run_accept _ _ (by rw [hs]; exact hc), hs]
      exact ⟨t, rfl, rfl, by simpa [Except.toOption] using hv, by simpa [Except.toOption] using hu⟩

theorem pushAll_reports (hdebug : cfg.debug = false) (p : Parser) (lex : Lexer) (base : ℤ)
    (chunks : List (List UInt8)) :
    Reports lex (observe UserCall.isError (pushAll (δ := δ) cfg p chunks))
      ((embedjson cfg).run (⟨p.lexer, base⟩, p.setLexer lex) chunks.flatten) := by
  induction chunks generalizing p base with
  | nil => exact ⟨p, rfl, rfl, rfl, by simp [pushAll, succeed]⟩
  | cons chunk chunks ih =>
    have h := embedjsonPush_reports (δ := δ) hdebug p lex base chunk
    rw [pushAll, observe_bind, List.flatten_cons]
    generalize observe UserCall.isError (embedjsonPush (δ := δ) cfg p chunk) = x at h
    obtain ⟨l, r⟩ := x
    rcases hs : (embedjson (δ := δ) cfg).run (⟨p.lexer, base⟩, p.setLexer lex) chunk with
      ⟨os, code | ⟨s, q⟩⟩
    · rw [hs] at h
      obtain ⟨rfl, hl⟩ := h
      rw [Transducer.run_append_error _ hs]
      exact ⟨rfl, hl⟩
    · rw [hs] at h
      obtain ⟨t, rfl, rfl, hv, hne⟩ := h
      have h' : Reports lex (observe UserCall.isError (pushAll cfg (t.setLexer s.lex) chunks))
          ((embedjson (δ := δ) cfg).run (s, t.setLexer lex) chunks.flatten) :=
        ih (t.setLexer s.lex) s.index
      rw [Transducer.run_append_ok _ hs, followedBy_some, if_neg (not_not_intro rfl)]
      generalize observe UserCall.isError (pushAll (δ := δ) cfg (t.setLexer s.lex) chunks) = y at h'
      obtain ⟨m, r⟩ := y
      rcases hr : (embedjson (δ := δ) cfg).run (s, t.setLexer lex) chunks.flatten with
        ⟨ps, code | ⟨u, q⟩⟩
      · rw [hr] at h'
        obtain ⟨rfl, m, position, rfl⟩ := h'
        exact ⟨rfl, l ++ m, position, (List.append_assoc _ _ _).symm⟩
      · rw [hr] at h'
        obtain ⟨t', rfl, rfl, hv', hne'⟩ := h'
        refine ⟨t', rfl, rfl, ?_, by simpa [or_imp, forall_and] using ⟨hne, hne'⟩⟩
        rw [view_append, view_append, show view l = view os from hv, show view m = view ps from hv']

end Embedjson
