import Embedjson.DocumentLanguage
import Embedjson.GrowingStack

namespace Embedjson

open Foundations Foundations.Program Foundations.Utf8 Json

variable {δ : Type}

section Phases

lemma phase_forget (b : Bool) (f : LexerCall δ) : phase b f.forget = phase b f := by
  cases f <;> cases b <;> rfl

lemma foldlM_phase_forget (calls : List (LexerCall δ)) (b : Bool) :
    (calls.map LexerCall.forget).foldlM phase b = calls.foldlM phase b := by
  induction calls generalizing b with
  | nil => rfl
  | cons f calls ih =>
    rw [List.map_cons, List.foldlM_cons, List.foldlM_cons, phase_forget]
    exact bind_congr fun c => ih c

lemma foldlM_phase_lexeme (x : Lexeme δ) : x.calls.foldlM phase false = some false := by
  cases x with
  | string text =>
    have hchunks : (text.map (.tokenc .null) : List (LexerCall δ)).foldlM phase true = some true := by
      induction text with
      | nil => rfl
      | cons bytes text ih => exact ih
    rw [Lexeme.calls, List.cons_append, List.foldlM_cons]
    change ((text.map (.tokenc .null) : List (LexerCall δ)) ++ _).foldlM phase true = _
    rw [List.foldlM_append, hchunks]
    rfl
  | _ => rfl

lemma foldlM_phase_lexemes {calls : List (LexerCall δ)} {ts : List (Lexeme δ)}
    (h : calls.map LexerCall.forget = ts.flatMap Lexeme.calls) :
    calls.foldlM phase false = some false := by
  have hall : (ts.flatMap Lexeme.calls : List (LexerCall δ)).foldlM phase false = some false := by
    clear h
    induction ts with
    | nil => rfl
    | cons x ts ih =>
      rw [List.flatMap_cons, List.foldlM_append, foldlM_phase_lexeme]
      exact ih
  rw [← foldlM_phase_forget, h, hall]

end Phases

variable [DoubleArith δ] {cfg : Config} {chunks : List (List UInt8)} {bytes : List UInt8}
  {us : List (UserCall δ)} {calls : List (LexerCall δ)} {p : Parser}

section Memory

variable (hdynamic : cfg.dynamicStack = true)

include hdynamic

omit [DoubleArith δ] in
lemma embodies_zero : Embodies (.zero cfg) .zero := ⟨rfl, stacked_zero hdynamic⟩

variable (hgrowth : ∀ n, cfg.growth n ≠ []) (hbits : 8 ≤ cfg.intBits)

include hgrowth hbits

lemma ReadsDocument.value (hutf8 : cfg.validateUtf8 = true → WellFormed bytes)
    (hbig : ∀ p v, .tokenbnBegin p v ∉ calls) (h : ReadsDocument cfg bytes calls us)
    (hrun : (parserMachine cfg).run (.zero cfg) calls = (us, .ok p)) (hp : ¬Ruined p) :
    ∃ v : Json δ, Tokenises cfg bytes (serialise .implemented v) ∧ quiet us = traversal v := by
  obtain ⟨s, front, final, q, hfront, hfinal, rfl, hcalls, hstate⟩ := h
  cases hrun.symm.trans hcalls
  obtain ⟨ts, hts, hforget⟩ := exists_tokens hbits hutf8 hfront hfinal fun q w hmem =>
    hbig q w (List.mem_append_left final hmem)
  obtain ⟨c, hc, hpc, -⟩ := (embodies_zero hdynamic).run_sound hdynamic hgrowth
    (A := Dialect.implemented.automaton (2 ^ 64)) (P := fun _ _ => True) rfl (fun _ _ _ _ _ => trivial)
    rfl (foldlM_phase_lexemes hforget) nofun hcalls hp [] trivial
  rw [← Automaton.caller_run_forget, hforget, Automaton.caller_run_lexemes] at hc
  obtain ⟨v, rfl, -, hus⟩ := run_done_iff.mp ⟨c, hc, hpc.state.symm.trans hstate⟩
  exact ⟨v, hts, hus⟩

/-- A document of that depth is read, and `P` holds behind it if every step of the parser keeps it. -/
lemma reads_value {limit : ℕ} {P : Parser → List (UserCall δ) → Prop}
    (hstep : ∀ {p q c c' f os history}, P p history → Embodies p c → Embodies q c' →
      (Dialect.implemented.automaton limit).call c f = some (quiet os, c') →
        parserStep cfg p f = (os, .ok q) → P q (history ++ os))
    (hzero : P (.zero cfg) []) (hlarge : limit < 2 ^ 64)
    (hlimit : ∀ n, Grown cfg n → 32 ≤ n → limit ≤ 8 * n) {v : Json δ}
    (hv : Tokenises cfg bytes (serialise .implemented v)) (hdepth : depth v ≤ limit) :
    ∃ calls us p, ReadsDocument cfg bytes calls us ∧ quiet us = traversal v ∧
      (parserMachine cfg).run (.zero cfg) calls = (us, .ok p) ∧ p.broken = false ∧ P p us := by
  obtain ⟨c, hc, hstate⟩ := run_done_iff.mpr ⟨v, rfl, hdepth, rfl⟩
  obtain ⟨front, s, final, hfront, hfinal, hforget⟩ := hv.scans hbits (s := ⟨.zero, 0⟩) (ready_zero cfg)
  rw [← Automaton.caller_run_lexemes, ← hforget, Automaton.caller_run_forget] at hc
  obtain ⟨us, p, hrun, hquiet, hp, hP⟩ := (embodies_zero hdynamic).run_ok hdynamic hgrowth
    (A := Dialect.implemented.automaton limit) rfl hstep rfl hlarge hlimit .zero (Nat.zero_le _)
    (foldlM_phase_lexemes hforget) nofun hc [] hzero
  exact ⟨_, us, p, ⟨s, front, final, p, hfront, hfinal, rfl, hrun, hp.state.trans hstate⟩, hquiet, hrun,
    hp.stacked.bounds.sound, hP⟩

end Memory

section Runs

lemma ReadsDocument.calls_unique {calls' : List (LexerCall δ)} {us' : List (UserCall δ)}
    (h : ReadsDocument cfg bytes calls us) (h' : ReadsDocument cfg bytes calls' us') :
    calls = calls' := by
  obtain ⟨s, front, final, _, hfront, hfinal, rfl, -⟩ := h
  obtain ⟨_, _, _, _, hfront', hfinal', rfl, -⟩ := h'
  cases hfront.symm.trans hfront'
  cases hfinal.symm.trans hfinal'
  rfl

omit [DoubleArith δ] in
lemma quiet_view (us : List (UserCall δ)) : quiet (view us) = view (quiet us) := by
  induction us with
  | nil => rfl
  | cons u us ih =>
    have hcons (vs : List (UserCall δ)) : view (u :: vs) = u.pieces ++ view vs := rfl
    have hpieces : quiet u.pieces = if u.isOverflow then [] else u.pieces := by
      cases u <;> simp [quiet, UserCall.pieces, UserCall.isOverflow]
    have hquiet : quiet (u :: us) = if u.isOverflow then quiet us else u :: quiet us := by
      cases u <;> rfl
    rw [hcons, quiet_append, ih, hpieces, hquiet]
    cases u.isOverflow with
    | true => rfl
    | false => rfl

variable {answer : List (UserCall δ) → UserCall δ → ℤ} (hA : Accepting UserCall.isError answer)
  (hdebug : cfg.debug = false) (hdynamic : cfg.dynamicStack = true)
  (hgrowth : ∀ n, cfg.growth n ≠ []) (hbits : 8 ≤ cfg.intBits)
  (hutf8 : cfg.validateUtf8 = true → WellFormed chunks.flatten)

include hA hdebug hdynamic hgrowth hbits hutf8

/-- The language is that of a static stack without a limit, unless an access leaves the stack. None does
up to a depth that every capacity of 32 bytes or more can hold. -/
theorem dynamic_parses {limit : ℕ} (hlarge : limit < 2 ^ 64)
    (hlimit : ∀ n, Grown cfg n → 32 ≤ n → limit ≤ 8 * n) :
    (∀ us, Parses cfg answer chunks us → ¬Ruined (run answer (parse cfg chunks) []).2.2 →
      ∃ v : Json δ, Tokenises cfg chunks.flatten (serialise .implemented v) ∧
        quiet us = traversal v) ∧
    ∀ v : Json δ, Tokenises cfg chunks.flatten (serialise .implemented v) → depth v ≤ limit →
      ∃ us, Parses cfg answer chunks us ∧ quiet us = traversal v ∧
        (run answer (parse cfg chunks) []).2.2.broken = false := by
  constructor
  · intro us hparses hsound
    obtain ⟨l, q, hobserve, rfl⟩ := (parses_iff_observe hA us).mp hparses
    rw [(run_parse_iff hA).mpr hobserve] at hsound
    obtain ⟨_, _, calls, vs, hobserve', hreads, hview, p, lex, hrun, rfl⟩ | ⟨hnone, -⟩ :=
      observe_parse_reads (δ := δ) hdebug chunks
    · cases hobserve.symm.trans hobserve'
      obtain ⟨v, hv, hquiet⟩ := hreads.value hdynamic hgrowth hbits hutf8
        (not_big_of_parse hobserve hreads) hrun hsound
      exact ⟨v, hv, by rw [hview, quiet_view, hquiet, view_traversal hv]⟩
    · cases hnone.symm.trans (congrArg Prod.snd hobserve)
  · intro v hv hdepth
    obtain ⟨calls, us, p, hreads, hquiet, hrun, hp, -⟩ := reads_value hdynamic hgrowth hbits
      (P := fun _ _ => True) (fun _ _ _ _ _ => trivial) trivial hlarge hlimit hv hdepth
    obtain ⟨l, _, calls', vs, hobserve, hreads', hview, p', lex, hrun', rfl⟩ | ⟨-, hno⟩ :=
      observe_parse_reads (δ := δ) hdebug chunks
    · obtain rfl := hreads.calls_unique hreads'
      cases hrun.symm.trans hrun'
      refine ⟨view l, (parses_iff_observe hA _).mpr ⟨l, _, hobserve, rfl⟩, ?_, ?_⟩
      · rw [hview, quiet_view, hquiet, view_traversal hv]
      · rw [(run_parse_iff hA).mpr hobserve]
        exact hp
    · exact absurd hreads (hno calls us)

end Runs

/-- The capacities of embedjson_lint.c. From 63 bytes on they hold 504 brackets. -/
lemma grown_double {n : ℕ} (hdouble : ∀ n, (cfg.growth n).length = n + 1) (h : Grown cfg n) :
    ∃ k, n + 1 = 2 ^ k := by
  induction h with
  | zero => exact ⟨0, rfl⟩
  | @grow n _ ih =>
    obtain ⟨k, hk⟩ := ih
    refine ⟨k + 1, ?_⟩
    rw [hdouble, pow_succ]
    omega

lemma le_of_grown_double {n : ℕ} (hdouble : ∀ n, (cfg.growth n).length = n + 1) (h : Grown cfg n)
    (hn : 32 ≤ n) : 504 ≤ 8 * n := by
  obtain ⟨k, hk⟩ := grown_double hdouble h
  have hlarge : 2 ^ 5 < 2 ^ k := by omega
  have hexponent : 5 < k := (Nat.pow_lt_pow_iff_right (by decide)).mp hlarge
  have hle := Nat.pow_le_pow_right (show 0 < 2 by decide) hexponent
  omega

theorem dynamic_parses_nested : ∃ v : Json ℚ,
    Tokenises .dynamic [91, 91, 49, 93, 93] (serialise .implemented v) ∧
      [.arrayBegin, .arrayBegin, .int 1, .arrayEnd, .arrayEnd] = traversal v := by
  have hdouble (n : ℕ) : (Config.dynamic.growth n).length = n + 1 := List.length_replicate
  have hgrowth : ∀ n, Config.dynamic.growth n ≠ [] := fun _ => List.cons_ne_nil _ _
  have hfinal : (run (accept UserCall.isError)
      (parse (δ := ℚ) .dynamic [[91, 91, 49, 93, 93]]) []).2.2.broken = false ∧
      (run (accept UserCall.isError)
        (parse (δ := ℚ) .dynamic [[91, 91, 49, 93, 93]]) []).2.2.stackCapacity = 1 := ⟨rfl, rfl⟩
  have hutf8 : WellFormed [[91, 91, 49, 93, 93]].flatten := ⟨"[[1]]".toList, rfl⟩
  refine (dynamic_parses (accepting_accept _) rfl rfl hgrowth (by decide) (fun _ => hutf8)
    (by decide : 504 < 2 ^ 64) fun n hn => le_of_grown_double hdouble hn).1
      [.stackOverflow, .arrayBegin, .arrayBegin, .int 1, .arrayEnd, .arrayEnd] ⟨rfl, rfl⟩ ?_
  rintro (hbroken | hlarge)
  · cases hfinal.1.symm.trans hbroken
  · rw [hfinal.2] at hlarge
    exact absurd hlarge (by decide)

end Embedjson
