import Embedjson.CallbackFailures
import Embedjson.EndOfInput
import Embedjson.Lexer.Lockstep
import Embedjson.Lexer.Protocol
import Embedjson.Parser.Stream

/-! Builds with less validation, with big numbers or with wider integers accept what they accepted
before, with the same callbacks. -/

namespace Embedjson

open Foundations Foundations.Program

variable {δ : Type}

structure SameParser (δ : Type) (cfg cfg' : Config) : Prop where
  calls : onLexerCall (δ := δ) cfg' = onLexerCall cfg
  zero : Parser.zero cfg' = .zero cfg

lemma sameParser (δ : Type) (cfg : Config) (validateUtf8 bignum : Bool) (intBits : ℕ) :
    SameParser δ cfg
      { cfg with validateUtf8 := validateUtf8, bignum := bignum, intBits := intBits } :=
  ⟨rfl, rfl⟩

section Feeding

variable {cfg cfg' : Config} {p q : Parser} {l : List (LexerCall δ)} {us : List (UserCall δ)}

lemma feed_setLexer (hne : ∀ f ∈ l, f.Nonempty)
    (h : feed UserCall.isError (onLexerCall cfg) l p = (us, some q)) (lex : Lexer) :
    feed UserCall.isError (onLexerCall cfg) l (p.setLexer lex) = (us, some (q.setLexer lex)) := by
  rw [feed_eq_run] at h ⊢
  rcases hrun : (parserMachine cfg).run p l with ⟨vs, code | t⟩
  · rw [hrun] at h
    cases congrArg Prod.snd h
  · rw [hrun] at h
    cases h
    obtain ⟨halike, hres⟩ := run_forget cfg (m := l) rfl hne p lex
    rw [hrun] at halike hres
    rw [hres, ← eq_of_alike halike (parserMachine_run_ok hrun)]
    rfl

variable [DoubleArith δ]

lemma observe_push_some {chunk : List UInt8} {code : ℤ}
    (h : observe UserCall.isError (embedjsonPush cfg p chunk) = (us, some (code, q))) :
    ∃ l t, observe LexerCall.isError (embedjsonLexerPush (δ := δ) cfg chunk p.lexer) =
        (l, some (code, q.lexer)) ∧
      feed UserCall.isError (onLexerCall cfg) l p = (us, some t) ∧ q = t.setLexer q.lexer := by
  rw [observe_push] at h
  rcases hlexer : observe LexerCall.isError (embedjsonLexerPush (δ := δ) cfg chunk p.lexer) with ⟨l, r⟩
  rw [hlexer] at h
  rcases hfeed : feed UserCall.isError (onLexerCall cfg) l p with ⟨vs, _ | t⟩
  · rw [hfeed] at h
    cases congrArg Prod.snd h
  · rw [hfeed, followedBy_some, List.append_nil] at h
    obtain ⟨rfl, hr⟩ := Prod.mk.inj h
    obtain ⟨a, rfl, heq⟩ := Option.map_eq_some_iff.mp hr
    cases heq
    exact ⟨l, t, rfl, hfeed, rfl⟩

lemma observe_pushAll_cons {chunk : List UInt8} {chunks : List (List UInt8)} {code : ℤ}
    (h : observe UserCall.isError (pushAll cfg p (chunk :: chunks)) = (us, some (code, q))) :
    ∃ vs ws t, observe UserCall.isError (embedjsonPush cfg p chunk) = (vs, some (0, t)) ∧
      observe UserCall.isError (pushAll cfg t chunks) = (ws, some (code, q)) ∧ us = vs ++ ws := by
  rw [pushAll, observe_bind] at h
  rcases ho : observe UserCall.isError (embedjsonPush (δ := δ) cfg p chunk) with ⟨vs, _ | ⟨r, t⟩⟩
  · rw [ho] at h
    cases congrArg Prod.snd h
  · obtain rfl : r = 0 := (embedjsonPush_relaysCode p chunk).observe_eq ho
    rw [ho, followedBy_some, if_neg (not_not_intro rfl)] at h
    obtain ⟨rfl, hr⟩ := Prod.mk.inj h
    exact ⟨vs, _, t, rfl, Prod.ext rfl hr, rfl⟩

lemma observe_parse_some {chunks : List (List UInt8)} {code : ℤ}
    (h : observe UserCall.isError (parse cfg chunks) = (us, some (code, q))) :
    ∃ t vs ws, observe UserCall.isError (pushAll cfg (.zero cfg) chunks) = (vs, some (0, t)) ∧
      observe UserCall.isError (embedjsonFinalize cfg t) = (ws, some (code, q)) ∧ us = vs ++ ws := by
  rw [parse, observe_bind] at h
  rcases ho : observe UserCall.isError (pushAll (δ := δ) cfg (.zero cfg) chunks) with ⟨vs, _ | ⟨r, t⟩⟩
  · rw [ho] at h
    cases congrArg Prod.snd h
  · obtain rfl : r = 0 := (pushAll_relaysCode _ chunks).observe_eq ho
    rw [ho, followedBy_some, if_neg (not_not_intro rfl)] at h
    obtain ⟨rfl, hr⟩ := Prod.mk.inj h
    exact ⟨t, vs, _, rfl, Prod.ext rfl hr, rfl⟩

end Feeding

section Bignum

variable {cfg : Config} {p q : Parser} {g g' : CallGroup} {f : LexerCall δ}

/-- The end of the big number leads to the state `invalid`, and no call leads out of it. -/
def Doomed (g : CallGroup) (p : Parser) : Prop :=
  p.state = .invalid ∨ g = .bignum ∧ bignumNextState p.state = some .invalid

variable (cfg) in
lemma onLexerCall_invalid (hp : p.state = .invalid) (f : LexerCall δ) :
    Returns (fun a => a.2.state = .invalid) (onLexerCall cfg f p) := by
  have hcheck {k : ParserProgram δ} (position : Pointer)
      (hk : Returns (fun a => a.2.state = .invalid) k) :
      Returns (fun a => a.2.state = .invalid) (checkState cfg p position k) := by
    rw [checkState]
    split_ifs
    · exact fun _ => hp
    · exact hk
  have hsilent (position : Pointer) : Returns (fun a => a.2.state = .invalid)
      (if cfg.debug then returnErrorEx p .internalError position else succeed p : ParserProgram δ) := by
    split_ifs
    · exact fun _ => hp
    · exact hp
  have hnumber (u : UserCall δ) (position : Pointer) :
      Returns (fun a => a.2.state = .invalid) (numberToken cfg p u position) := by
    rw [numberToken, hp]
    exact hsilent position
  have hend (table : ParserState → Option ParserState) (htable : table .invalid = none)
      (u : UserCall δ) (position : Pointer) :
      Returns (fun a => a.2.state = .invalid) (endToken cfg table u p position) := by
    have hlookup : (lookupNextState table p).state = .invalid := by
      rw [lookupNextState, hp, htable]
    refine hcheck position ?_
    rw [checkState]
    split_ifs
    · exact fun _ => hlookup
    · exact fun _ => hlookup
  cases f with
  | token tok position =>
    rw [onLexerCall, embedjsonToken, hp]
    exact hsilent position
  | tokenc data bytes | tokenbn data bytes => exact hcheck _ fun _ => hp
  | tokeni v position | tokenf v position | tokenbnBegin position v => exact hnumber _ _
  | tokencBegin position =>
    rw [onLexerCall, embedjsonTokencBegin, hp]
    exact hsilent position
  | tokencEnd position | tokenbnEnd position => exact hend _ rfl _ _
  | errorEx code position => exact fun _ => hp

lemma Doomed.step (h : Doomed g p) (hg : g.next f = some g') {us : List (UserCall δ)} {code : ℤ}
    (ho : observe UserCall.isError (onLexerCall cfg f p) = (us, some (code, q))) : Doomed g' q := by
  rcases h with hp | ⟨rfl, hp⟩
  · exact .inl ((onLexerCall_invalid cfg hp f).observe ho)
  · cases f with
    | tokenbn data bytes =>
      cases hg
      have hkeeps :
          Returns (fun a => a.2 = p) (onLexerCall cfg (.tokenbn data bytes : LexerCall δ) p) := by
        rw [onLexerCall, embedjsonTokenbn, checkState]
        split_ifs
        · exact fun _ => rfl
        · exact fun _ => rfl
      obtain rfl : q = p := hkeeps.observe ho
      exact .inr ⟨rfl, hp⟩
    | tokenbnEnd position =>
      have hstate : (lookupNextState bignumNextState p).state = .invalid := by
        rw [lookupNextState, hp]
      have hinvalid : Returns (fun a => a.2.state = .invalid)
          (onLexerCall cfg (.tokenbnEnd position : LexerCall δ) p) := by
        rw [onLexerCall, embedjsonTokenbnEnd, endToken, checkState, checkState]
        split_ifs with h
        · exact fun _ => h.2
        · exact fun _ => hstate
        · exact fun _ => hstate
      exact .inl (hinvalid.observe ho)
    | errorEx code position => cases ho
    | _ => cases hg

lemma doomed_begin {position : Pointer} {v : ℤ} {us : List (UserCall δ)} {code : ℤ}
    (ho : observe UserCall.isError (onLexerCall cfg (.tokenbnBegin position v) p) =
      (us, some (code, q))) : Doomed .bignum q := by
  rw [onLexerCall, embedjsonTokenbnBegin, numberToken] at ho
  cases hp : p.state <;> rw [hp] at ho
  case expectValue | expectObjectValue | maybeArrayValue | expectArrayValue =>
    cases ho
    exact .inr ⟨rfl, rfl⟩
  case invalid =>
    dsimp only at ho
    split_ifs at ho
    · cases ho
    · cases ho
      exact .inl hp
  all_goals cases ho

lemma doomed_feed {l : List (LexerCall δ)} {us : List (UserCall δ)} (hl : Grouped g l g')
    (h : Doomed g p ∨ ∃ position v, .tokenbnBegin position v ∈ l)
    (hfeed : feed UserCall.isError (onLexerCall cfg) l p = (us, some q)) : Doomed g' q := by
  induction l generalizing g p us with
  | nil =>
    cases hfeed
    cases hl.1
    exact h.resolve_right (by simp)
  | cons f l ih =>
    obtain ⟨hfold, hsound⟩ := hl
    rw [List.foldlM_cons] at hfold
    obtain ⟨g'', hg, hfold⟩ := Option.bind_eq_some_iff.mp hfold
    have hrest : Grouped g'' l g' := ⟨hfold, (List.forall_mem_cons.mp hsound).2⟩
    rw [feed_cons] at hfeed
    rcases ho : observe UserCall.isError (onLexerCall cfg f p) with ⟨vs, _ | ⟨code, t⟩⟩
    · rw [ho] at hfeed
      cases congrArg Prod.snd hfeed
    · rw [ho, followedBy_some] at hfeed
      obtain ⟨-, hfeed⟩ := Prod.mk.inj hfeed
      refine ih hrest ?_ (Prod.ext rfl hfeed)
      rcases h with hdoomed | ⟨position, v, hmem⟩
      · exact .inl (hdoomed.step hg ho)
      · rcases List.mem_cons.mp hmem with rfl | hmem
        · cases g <;> cases hg
          exact .inl (doomed_begin ho)
        · exact .inr ⟨position, v, hmem⟩

variable [DoubleArith δ]

lemma doomed_push {chunk : List UInt8} {us : List (UserCall δ)} {code : ℤ}
    (h : Doomed p.lexer.group p ∨ ∃ position v, .tokenbnBegin position v ∈
      (observe LexerCall.isError (embedjsonLexerPush (δ := δ) cfg chunk p.lexer)).1)
    (ho : observe UserCall.isError (embedjsonPush cfg p chunk) = (us, some (code, q))) :
    Doomed q.lexer.group q := by
  obtain ⟨g, hg, hend⟩ := embedjsonLexerPush_grouped (δ := δ) cfg p.lexer chunk
  obtain ⟨l, t, hlexer, hfeed, hq⟩ := observe_push_some ho
  rw [hlexer] at hg hend h
  obtain rfl := hend _ rfl
  have hdoomed : Doomed q.lexer.group t := doomed_feed hg h hfeed
  rw [hq]
  exact hdoomed

lemma doomed_pushAll {chunks : List (List UInt8)} {us : List (UserCall δ)} {code : ℤ}
    (h : Doomed p.lexer.group p ∨ ∃ position v,
      .tokenbnBegin position v ∈ (lexerCalls cfg p.lexer chunks : List (LexerCall δ)))
    (ho : observe UserCall.isError (pushAll cfg p chunks) = (us, some (code, q))) :
    Doomed q.lexer.group q := by
  induction chunks generalizing p us with
  | nil =>
    cases ho
    exact h.resolve_right (by simp [lexerCalls, lexerPushAll])
  | cons chunk chunks ih =>
    obtain ⟨vs, ws, t, hpush, hrest, -⟩ := observe_pushAll_cons ho
    obtain ⟨l, -, hlexer, -⟩ := observe_push_some hpush
    refine ih ?_ hrest
    rw [lexerCalls_cons hlexer] at h
    rcases h with hdoomed | ⟨position, v, hmem⟩
    · exact .inl (doomed_push (.inl hdoomed) hpush)
    · rcases List.mem_append.mp hmem with hmem | hmem
      · exact .inl (doomed_push (.inr ⟨position, v, by rw [hlexer]; exact hmem⟩) hpush)
      · exact .inr ⟨position, v, hmem⟩

lemma finalize_doomed (h : Doomed p.lexer.group p) :
    (observe UserCall.isError (embedjsonFinalize (δ := δ) cfg p)).2 = none := by
  obtain ⟨g, hg, hne⟩ := embedjsonLexerFinalize_grouped (δ := δ) cfg p.lexer
  rw [observe_finalize]
  rcases hfeed : feed UserCall.isError (onLexerCall cfg)
      (observe LexerCall.isError (embedjsonLexerFinalize (δ := δ) cfg p.lexer)).1 p with ⟨us, _ | t⟩
  · rfl
  · have ht : t.state = .invalid :=
      (doomed_feed hg (.inl h) hfeed).resolve_right fun hbig => hne hbig.1
    rw [followedBy_some, endOfInput, if_pos (by rw [ht]; decide)]

end Bignum

section Builds

variable [DoubleArith δ] {cfg cfg' : Config}

variable (hpermits : Permits cfg cfg') (hsame : SameParser δ cfg cfg')

include hpermits hsame

lemma embedjsonPush_switched {p q : Parser} {lex : Lexer} {chunk : List UInt8}
    {us : List (UserCall δ)} {code : ℤ} (hv : Varies cfg' p.lexer lex) (htidy : Tidy cfg p.lexer)
    (hper : ∀ f ∈ (observe LexerCall.isError (embedjsonLexerPush (δ := δ) cfg chunk p.lexer)).1,
      Permitted cfg cfg' f)
    (h : observe UserCall.isError (embedjsonPush cfg p chunk) = (us, some (code, q))) :
    ∃ lex', observe UserCall.isError (embedjsonPush cfg' (p.setLexer lex) chunk) =
        (us, some (code, q.setLexer lex')) ∧ Varies cfg' q.lexer lex' ∧ Tidy cfg q.lexer := by
  obtain ⟨l, t, hlexer, hfeed, hq⟩ := observe_push_some h
  have htogether := embedjsonLexerPush_together (δ := δ) hpermits hv htidy chunk
  have htells := embedjsonLexerPush_tells (δ := δ) cfg p.lexer 0 chunk
  rw [hlexer] at htogether htells hper
  obtain ⟨⟨code', lex'⟩, ⟨rfl, hvaries, htidy'⟩, hlexer'⟩ := htogether hper
  have hne : ∀ f ∈ l, f.Nonempty := by
    rcases hrun : (scanner (δ := δ) cfg).run ⟨p.lexer, 0⟩ chunk with ⟨calls, code | s⟩
    · rw [hrun] at htells
      cases htells.1
    · rw [hrun] at htells
      exact htells.2.2
  refine ⟨lex', ?_, hvaries, htidy'⟩
  rw [observe_push, hsame.calls, show (p.setLexer lex).lexer = lex from rfl, hlexer',
    feed_setLexer hne hfeed lex, followedBy_some, hq, List.append_nil]
  rfl

lemma pushAll_switched {p q : Parser} {lex : Lexer} {chunks : List (List UInt8)}
    {us : List (UserCall δ)} {code : ℤ} (hv : Varies cfg' p.lexer lex) (htidy : Tidy cfg p.lexer)
    (hper : ∀ f ∈ (lexerCalls cfg p.lexer chunks : List (LexerCall δ)), Permitted cfg cfg' f)
    (h : observe UserCall.isError (pushAll cfg p chunks) = (us, some (code, q))) :
    ∃ lex', observe UserCall.isError (pushAll cfg' (p.setLexer lex) chunks) =
        (us, some (code, q.setLexer lex')) ∧ Varies cfg' q.lexer lex' ∧ Tidy cfg q.lexer := by
  induction chunks generalizing p lex us with
  | nil =>
    cases h
    exact ⟨lex, rfl, hv, htidy⟩
  | cons chunk chunks ih =>
    obtain ⟨vs, ws, t, hpush, hrest, rfl⟩ := observe_pushAll_cons h
    obtain ⟨l, -, hlexer, -⟩ := observe_push_some hpush
    rw [lexerCalls_cons hlexer] at hper
    obtain ⟨hl, hper⟩ := List.forall_mem_append.mp hper
    obtain ⟨lex', hpush', hv', htidy'⟩ :=
      embedjsonPush_switched hpermits hsame hv htidy (by rwa [hlexer]) hpush
    obtain ⟨lex'', hrest', hv'', htidy''⟩ := ih hv' htidy' hper hrest
    refine ⟨lex'', ?_, hv'', htidy''⟩
    rw [pushAll, observe_bind, hpush', followedBy_some, if_neg (not_not_intro rfl), hrest']

lemma embedjsonFinalize_switched {p q : Parser} {lex : Lexer} {us : List (UserCall δ)} {code : ℤ}
    (hv : Varies cfg' p.lexer lex) (htidy : Tidy cfg p.lexer)
    (h : observe UserCall.isError (embedjsonFinalize cfg p) = (us, some (code, q))) :
    observe UserCall.isError (embedjsonFinalize cfg' (p.setLexer lex)) =
      (us, some (code, q.setLexer lex)) := by
  have hne : ∀ f ∈ (observe LexerCall.isError (embedjsonLexerFinalize (δ := δ) cfg p.lexer)).1,
      f.Nonempty := by
    rw [embedjsonLexerFinalize]
    cases p.lexer.state <;> simp [invoke, observe, LexerCall.isError, LexerCall.Nonempty]
  rw [observe_finalize] at h ⊢
  rw [hsame.calls, show (p.setLexer lex).lexer = lex from rfl,
    embedjsonLexerFinalize_together hpermits hv htidy]
  generalize (observe LexerCall.isError (embedjsonLexerFinalize (δ := δ) cfg p.lexer)).1 = l
    at hne h ⊢
  rcases hfeed : feed UserCall.isError (onLexerCall cfg) l p with ⟨vs, _ | t⟩
  · rw [hfeed] at h
    cases congrArg Prod.snd h
  · rw [feed_setLexer hne hfeed lex, followedBy_some]
    rw [hfeed, followedBy_some] at h
    by_cases hs : t.state = .done
    · have hend : endOfInput (δ := δ) t = ([], some (0, t)) := if_neg (not_not_intro hs)
      have hend' : endOfInput (δ := δ) (t.setLexer lex) = ([], some (0, t.setLexer lex)) :=
        if_neg (not_not_intro hs)
      rw [hend] at h
      rw [hend']
      cases h
      rfl
    · rw [endOfInput, if_pos hs] at h
      cases congrArg Prod.snd h

variable {answer : List (UserCall δ) → UserCall δ → ℤ}
  (hE : ∀ history code position, answer history (.error code position) ≠ 0)

include hE

lemma parse_switched {chunks : List (List UInt8)}
    (h : (run answer (parse cfg chunks) []).2.1 = 0) :
    (run answer (parse cfg' chunks) []).2.1 = 0 ∧
      (run answer (parse cfg' chunks) []).1 = (run answer (parse cfg chunks) []).1 := by
  have hfast := parse_relaysCode (δ := δ) cfg chunks
  have hgranted : Granted answer [] (run answer (parse cfg chunks) []).1 := by
    rcases hfast.run_cases answer [] with ⟨granted, u, -, -, hu, hcode⟩ | ⟨hgranted, -⟩
    · exact absurd (hcode.symm.trans h) hu
    · exact hgranted
  have hobs := hfast.observe_of_run h (no_error_of_granted hE hgranted)
  have hv : Varies cfg' .zero .zero :=
    ⟨⟨0, (0, 0), .unknown, 0, #v[0, 0, 0, 0], 0, 0⟩, rfl, trivial, fun _ => ⟨rfl, rfl⟩⟩
  generalize run answer (parse cfg chunks) [] = x at hgranted hobs h ⊢
  obtain ⟨us, code, q⟩ := x
  obtain ⟨t, vs, ws, hpush, hend, rfl⟩ := observe_parse_some hobs
  have hper : ∀ f ∈ (lexerCalls cfg .zero chunks : List (LexerCall δ)), Permitted cfg cfg' f := by
    refine fun f hf => .inr fun position v hfv => ?_
    have hdoomed : Doomed t.lexer.group t :=
      doomed_pushAll (p := .zero cfg) (.inr ⟨position, v, hfv ▸ hf⟩) hpush
    cases (finalize_doomed hdoomed).symm.trans (congrArg Prod.snd hend)
  obtain ⟨lex, hpush', hv', htidy'⟩ :=
    pushAll_switched (p := .zero cfg) hpermits hsame hv (tidy_zero cfg) hper hpush
  have hend' := embedjsonFinalize_switched hpermits hsame hv' htidy' hend
  have hparse : observe UserCall.isError (parse cfg' chunks) =
      (vs ++ ws, some (code, q.setLexer lex)) := by
    rw [parse, observe_bind, hsame.zero,
      show observe _ (pushAll cfg' (.zero cfg) chunks) = _ from hpush', followedBy_some,
      if_neg (not_not_intro rfl), hend']
  rw [run_of_granted hparse hgranted]
  exact ⟨h, rfl⟩

end Builds

section Conservative

variable [DoubleArith δ] {answer : List (UserCall δ) → UserCall δ → ℤ}

/-- The second build accepts the input with the callbacks of the first one. -/
def SameAcceptance (answer : List (UserCall δ) → UserCall δ → ℤ) (cfg cfg' : Config)
    (chunks : List (List UInt8)) : Prop :=
  (run answer (parse cfg' chunks) []).2.1 = 0 ∧
    (run answer (parse cfg' chunks) []).1 = (run answer (parse cfg chunks) []).1

/-- An input that a build accepts is accepted without the validation of UTF-8, with big numbers and
with wider integers. No integer type of C has less than 8 bits. -/
theorem switches_conservative
    (hE : ∀ history code position, answer history (.error code position) ≠ 0) (cfg : Config)
    (hbits : 8 ≤ cfg.intBits) (chunks : List (List UInt8))
    (h : (run answer (parse cfg chunks) []).2.1 = 0) :
    (cfg.validateUtf8 = true → SameAcceptance answer cfg { cfg with validateUtf8 := false } chunks) ∧
      (cfg.bignum = false → SameAcceptance answer cfg { cfg with bignum := true } chunks) ∧
      (cfg.intBits = 64 → SameAcceptance answer cfg { cfg with intBits := 128 } chunks) := by
  refine ⟨fun hv => ?_, fun hb => ?_, fun hwidth => ?_⟩
  · have hpermits : Permits cfg { cfg with validateUtf8 := false } := ⟨fun _ => hv, id, hbits, le_rfl⟩
    exact parse_switched hpermits (sameParser δ cfg false cfg.bignum cfg.intBits) hE h
  · have hpermits : Permits cfg { cfg with bignum := true } := ⟨id, fun _ => rfl, hbits, le_rfl⟩
    exact parse_switched hpermits (sameParser δ cfg cfg.validateUtf8 true cfg.intBits) hE h
  · have hpermits : Permits cfg { cfg with intBits := 128 } :=
      ⟨id, id, hbits, by rw [hwidth]; exact Nat.le_add_right 64 64⟩
    exact parse_switched hpermits (sameParser δ cfg cfg.validateUtf8 cfg.bignum 128) hE h

end Conservative

theorem switches_conservative_array :
    SameAcceptance (δ := ℚ) (accept UserCall.isError) .default
      { Config.default with validateUtf8 := false }
        [[91, 34, 195], [169, 34, 44, 49, 50, 93]] ∧
      SameAcceptance (δ := ℚ) (accept UserCall.isError) .default { Config.default with bignum := true }
        [[91, 34, 195], [169, 34, 44, 49, 50, 93]] ∧
      SameAcceptance (δ := ℚ) (accept UserCall.isError) .default { Config.default with intBits := 128 }
        [[91, 34, 195], [169, 34, 44, 49, 50, 93]] := by
  obtain ⟨hvalidate, hbignum, hwide⟩ := @switches_conservative ℚ _
    (accept UserCall.isError) (fun _ _ _ => by simp [accept, UserCall.isError]) .default
    (by decide) [[91, 34, 195], [169, 34, 44, 49, 50, 93]] (by decide)
  exact ⟨hvalidate rfl, hbignum rfl, hwide rfl⟩

end Embedjson
