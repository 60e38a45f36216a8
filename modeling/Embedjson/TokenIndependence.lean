import Embedjson.Lexer.Counters
import Embedjson.Lexer.Lockstep
import Embedjson.Lexer.Protocol

namespace Embedjson

open Foundations Foundations.Program

variable {δ : Type} [DoubleArith δ] {cfg : Config} {lexer : Lexer}

/-- Two lexers that cannot be told apart by any chunks and the end of the input, in an environment
that refuses errors. -/
def LexAlike (δ : Type) [DoubleArith δ] (cfg : Config) (lexer lexer' : Lexer) : Prop :=
  ∀ answer : List (LexerCall δ) → LexerCall δ → ℤ,
    (∀ history code position, answer history (.errorEx code position) ≠ 0) →
    ∀ chunks history,
      run answer (lexerSession cfg lexer chunks) history =
        run answer (lexerSession cfg lexer' chunks) history

section Reached

variable {before : List (List UInt8)} {l : List (LexerCall δ)}

lemma reached_eq (hbits : 8 ≤ cfg.intBits) (hv : cfg.validateUtf8 = true) {code : ℤ}
    (h : observe LexerCall.isError (lexerPushAll cfg .zero before) = (l, some (code, lexer)))
    (hs : lexer.state = .lookupToken) :
    (lexer.nb = 0 ∨ lexer.nb = 2) ∧ lexer.cc = 0 ∧
      lexer = Lexer.zero.vary ⟨lexer.offset, lexer.unicodeCp, lexer.encoding, lexer.magicBytesRead,
        lexer.magic, lexer.nb, lexer.cc⟩ := by
  obtain ⟨calls, index, hrun⟩ := scanner_reached 0 h
  obtain ⟨hnb, hcc⟩ := (scanner_run_counted hv hrun).atRest (by rw [hs]; decide)
  have htidy := scanner_run_tidy hbits (tidy_zero cfg) hrun
  obtain ⟨hint, hminus, ⟨hfrac, hpower⟩, hexp, hsign, hempty⟩ := htidy.clear hs
  refine ⟨hnb, hcc, ?_⟩
  cases lexer
  dsimp only at hs hint hminus hfrac hpower hexp hsign hempty
  subst hs hint hminus hfrac hpower hexp hsign hempty
  rfl

end Reached

lemma lexerSession_varies (hbits : 8 ≤ cfg.intBits) {lexer lexer' : Lexer}
    (hv : Varies cfg lexer lexer') (htidy : Tidy cfg lexer) (chunks : List (List UInt8)) :
    observe LexerCall.isError (lexerSession (δ := δ) cfg lexer' chunks) =
      observe LexerCall.isError (lexerSession (δ := δ) cfg lexer chunks) := by
  have hpermits : Permits cfg cfg := ⟨id, id, hbits, le_rfl⟩
  have hpush := lexerPushAll_together (δ := δ) hpermits hv htidy chunks
  rw [lexerSession, lexerSession, observe_bind, observe_bind]
  rcases ho : observe LexerCall.isError (lexerPushAll (δ := δ) cfg lexer chunks) with ⟨l, _ | a⟩
  · rw [ho] at hpush
    rw [show observe _ (lexerPushAll cfg lexer' chunks) = _ from hpush rfl]
  · rw [ho] at hpush
    obtain ⟨a', ⟨hcode, hv', htidy'⟩, heq⟩ := hpush fun f _ => permitted_of_eq rfl f
    rw [heq, followedBy_some, followedBy_some, hcode,
      embedjsonLexerFinalize_together hpermits hv' htidy']

variable (δ) in
lemma empty_string_refused (hv : cfg.validateUtf8 = true) (hs : lexer.state = .lookupToken)
    (hnb : lexer.nb = 2) (hcc : lexer.cc = 0) :
    (observe LexerCall.isError
      (lexerSession (δ := δ) cfg lexer [['\"'.toUInt8, '\"'.toUInt8]])).2 = none := by
  have hfirst : scanStep (δ := δ) cfg ⟨lexer, 0⟩ '\"'.toUInt8 = ([.tokencBegin (.buffer 0)],
      .ok ⟨{ recordMagic lexer '\"'.toUInt8 with state := .inString }, 0 + 1⟩) := by
    apply scanStep_consume
    rw [react, recordMagic_state, hs]
    rfl
  have hsecond : ∃ code, scanStep (δ := δ) cfg
      ⟨{ recordMagic lexer '\"'.toUInt8 with state := .inString }, 0 + 1⟩ '\"'.toUInt8 =
        ([], .error code) := by
    have hval : validate 2 0 '\"'.toUInt8 = none := by decide
    rw [← hnb, ← hcc] at hval
    obtain ⟨code, hcode⟩ : ∃ code, checkUtf8 cfg
        (recordMagic { recordMagic lexer '\"'.toUInt8 with state := .inString } '\"'.toUInt8)
        '\"'.toUInt8 = .error code := checkUtf8_of_validate_none cfg hv (by simpa using hval)
    refine ⟨code, scanStep_reject ?_⟩
    rw [react, recordMagic_state]
    simp only [Reaction.ofString, hcode]
  obtain ⟨code, hsecond⟩ := hsecond
  have htells := lexerPushAll_tells (δ := δ) cfg lexer 0 [['\"'.toUInt8, '\"'.toUInt8]]
  rw [List.flatten_singleton, Transducer.run_cons_ok _ hfirst, Transducer.run_cons_error _ hsecond]
    at htells
  rw [lexerSession, observe_bind]
  generalize observe LexerCall.isError (lexerPushAll (δ := δ) cfg lexer _) = x at htells
  obtain ⟨l, r⟩ := x
  obtain ⟨rfl, -⟩ := htells
  rfl

lemma empty_string_accepted : (observe LexerCall.isError (lexerSession (δ := δ) .default .zero
    [['\"'.toUInt8, '\"'.toUInt8]])).2 = some 0 := rfl

/-- A lexer that looks for a token is as good as a fresh one if and only if no bytes of a multibyte
sequence are outstanding. -/
theorem lexes_alike_iff {before : List (List UInt8)} {l : List (LexerCall δ)}
    (h : observe LexerCall.isError (lexerPushAll .default .zero before) = (l, some (0, lexer)))
    (hs : lexer.state = .lookupToken) : LexAlike δ .default lexer .zero ↔ lexer.nb = 0 := by
  have hbits : 8 ≤ Config.default.intBits := by decide
  obtain ⟨hnb, hcc, heq⟩ := reached_eq hbits rfl h hs
  constructor
  · intro halike
    refine hnb.resolve_right fun htwo => ?_
    have hrefused := empty_string_refused δ (show Config.default.validateUtf8 = true from rfl) hs htwo hcc
    obtain ⟨-, -, hnonzero⟩ := (lexerSession_failsFast (δ := δ) .default lexer
      [['\"'.toUInt8, '\"'.toUInt8]]).run_accepting (accepting_accept LexerCall.isError) []
    obtain ⟨-, hzero, -⟩ := (lexerSession_failsFast (δ := δ) .default .zero
      [['\"'.toUInt8, '\"'.toUInt8]]).run_accepting (accepting_accept LexerCall.isError) []
    refine hnonzero hrefused ?_
    rw [halike (accept LexerCall.isError) (fun _ _ _ => by simp [accept, LexerCall.isError])]
    exact hzero 0 empty_string_accepted
  · intro hzero answer hE chunks history
    have hvaries : Varies .default .zero lexer := ⟨_, heq, trivial, fun _ => ⟨hzero, hcc⟩⟩
    refine (lexerSession_failsFast .default lexer chunks).run_congr
      (lexerSession_failsFast .default .zero chunks)
      (lexerSession_varies hbits hvaries (tidy_zero .default) chunks) ?_ history
    intro history f hf
    cases f with
    | errorEx code position => exact hE history code position
    | _ => cases hf

/-- The lexer behind the number 1 and a space. -/
theorem lexes_alike_iff_number : LexAlike ℚ .default
    { Lexer.zero with magicBytesRead := 3, magic := #v[49, 32, 32, 0] } .zero := by
  have h : observe LexerCall.isError (lexerPushAll (δ := ℚ) .default .zero [[49, 32]]) =
      ([.tokeni 1 (.buffer 0)],
        some (0, { Lexer.zero with magicBytesRead := 3, magic := #v[49, 32, 32, 0] })) := by
    decide
  exact (lexes_alike_iff h rfl).mpr rfl

/-- The lexer behind the string `"\xF1"`, and the empty string. -/
theorem leftover_not_alike :
    (observe LexerCall.isError (lexerPushAll (δ := ℚ) .default .zero [[34, 241, 34]])).2 =
        some (0, { Lexer.zero with magicBytesRead := 3, magic := #v[34, 241, 34, 0], nb := 2 }) ∧
      ¬LexAlike ℚ .default
        { Lexer.zero with magicBytesRead := 3, magic := #v[34, 241, 34, 0], nb := 2 } .zero := by
  refine ⟨by decide, fun halike => ?_⟩
  have hrun := halike (accept LexerCall.isError) (fun _ _ _ => by simp [accept, LexerCall.isError])
    [[34, 34]] []
  revert hrun
  decide

end Embedjson
