import Embedjson.Linting
import Embedjson.StackMemory

namespace Embedjson

open Foundations Foundations.Program Foundations.Utf8 Json

variable {δ : Type} {cfg : Config} {host : Host δ} {s : Lint}

section Requests

structure Lint.Fresh (host : Host δ) (s : Lint) : Prop where
  position : s.errorPosition = .null
  code : s.errorCode = .ok
  granted : ∀ n < s.reallocs, host.realloc n = true

inductive Lint.Ends (host : Host δ) : ℤ → Lint → Prop
  | succeeds {s : Lint} (h : s.Fresh host) : Ends host 0 s
  | reports {s : Lint} (hcode : s.errorCode = .internalError)
      (hgranted : ∀ n < s.reallocs, host.realloc n = true) : Ends host 1 s
  | starves {s : Lint} {n : ℕ} (hposition : s.errorPosition = .null) (hcode : s.errorCode = .ok)
      (hgranted : ∀ m < n, host.realloc m = true) (hlast : s.reallocs = n + 1)
      (hrefused : host.realloc n = false) : Ends host (-1) s

lemma Lint.Fresh.print (h : s.Fresh host) (line : List UInt8) : (s.print line).Fresh host := by
  rw [Lint.print_eq]
  exact ⟨h.position, h.code, h.granted⟩

lemma serve_ends (hdynamic : cfg.dynamicStack = true) {m : ParserProgram δ} (hm : RelaysCode m)
    (h : s.Fresh host) :
    Lint.Ends host (serve (lintCallback cfg host) m s).1.1 (serve (lintCallback cfg host) m s).2 ∧
      (serve (lintCallback cfg host) m s).2.stderr = s.stderr := by
  induction m generalizing s with
  | done a =>
    have ha : a.1 = 0 := hm
    rw [serve_done, ha]
    exact ⟨.succeeds h, rfl⟩
  | call u next ih =>
    have hprint {line : List UInt8} (hu : lintCallback cfg host u s = (0, s.print line)) :
        Lint.Ends host (serve (lintCallback cfg host) (.call u next) s).1.1
            (serve (lintCallback cfg host) (.call u next) s).2 ∧
          (serve (lintCallback cfg host) (.call u next) s).2.stderr = s.stderr := by
      rw [serve, hu]
      obtain ⟨hends, hstderr⟩ := ih 0 hm.2 (h.print line)
      exact ⟨hends, by rw [hstderr, Lint.print_eq]⟩
    cases u with
    | error code position =>
      obtain ⟨a, ha, hcode⟩ := hm.1 1 one_ne_zero
      have hserve : serve (lintCallback cfg host) (.call (.error code position) next) s =
          (a, { s with errorPosition := position, errorCode := .internalError }) := by
        rw [serve, lintCallback, ha, serve_done]
      rw [hserve, hcode]
      exact ⟨.reports rfl h.granted, rfl⟩
    | stackOverflow =>
      rw [serve, lintCallback, hdynamic, Bool.true_and]
      cases hrealloc : host.realloc s.reallocs with
      | true =>
        have hfresh : Lint.Fresh host { s with reallocs := s.reallocs + 1 } := by
          refine ⟨h.position, h.code, fun n hn => ?_⟩
          rcases Nat.lt_succ_iff_lt_or_eq.mp hn with hlt | rfl
          · exact h.granted n hlt
          · exact hrealloc
        exact ih 0 hm.2 hfresh
      | false =>
        obtain ⟨a, ha, hcode⟩ := hm.1 (-1) (by decide)
        simp only [Bool.not_false, if_true, ha, serve_done, hcode]
        exact ⟨.starves h.position h.code h.granted rfl hrealloc, trivial⟩
    | _ => exact hprint rfl

/-- What the program writes to the standard error when a `realloc` fails. No callback has set the
position and the code. -/
def Lint.starved : List UInt8 :=
  ascii "error parsing json near symbol '?': " ++ ascii (embedjsonStrerror .ok) ++ ascii "\n"

inductive Lint.Exits (host : Host δ) : ℤ × Lint → List UInt8 → Prop
  | succeeds {s : Lint} (hgranted : ∀ n < s.reallocs, host.realloc n = true) : Exits host (0, s) []
  | reports {s : Lint} (symbol : Option UInt8)
      (hgranted : ∀ n < s.reallocs, host.realloc n = true) : Exits host (1, s) (report symbol)
  | starves {s : Lint} {n : ℕ} (hgranted : ∀ m < n, host.realloc m = true)
      (hlast : s.reallocs = n + 1) (hrefused : host.realloc n = false) : Exits host (-1, s) starved

lemma Lint.Ends.exits {r : ℤ} {ch : Option UInt8} (h : Lint.Ends host r s) (hr : r ≠ 0) :
    ∃ text, Lint.Exits host (r, s.complain ch) text ∧ (s.complain ch).stderr = s.stderr ++ text := by
  cases h with
  | succeeds h => exact absurd rfl hr
  | reports hcode hgranted =>
    refine ⟨_, .reports (Lint.symbol ch s.errorPosition) hgranted, ?_⟩
    simp [Lint.complain, Lint.report, hcode]
  | starves hposition hcode hgranted hlast hrefused =>
    have hline : Lint.ascii "error parsing json near symbol '?': " =
        Lint.ascii "error parsing json near symbol '" ++ '?'.toUInt8 :: Lint.ascii "': " := rfl
    refine ⟨_, .starves hgranted hlast hrefused, ?_⟩
    simp [Lint.complain, Lint.starved, Lint.symbol, hposition, hcode, hline]

variable [DoubleArith δ] {p : Parser}

lemma lintLoop_exits (hdynamic : cfg.dynamicStack = true) (input : List UInt8) (p : Parser)
    (ch : Option UInt8) (h : s.Fresh host) :
    ∃ text, Lint.Exits host (lintLoop cfg host input ch p s) text ∧
      (lintLoop cfg host input ch p s).2.stderr = s.stderr ++ text := by
  induction input generalizing p ch s with
  | nil =>
    obtain ⟨hends, hstderr⟩ := serve_ends hdynamic
      (show RelaysCode (embedjsonFinalize (δ := δ) cfg p) from embedjsonFinalize_relaysCode p) h
    rw [lintLoop]
    generalize serve (lintCallback cfg host) (embedjsonFinalize (δ := δ) cfg p) s = x at hends hstderr
    obtain ⟨⟨r, q⟩, t⟩ := x
    by_cases hr : r = 0
    · subst hr
      cases hends with
      | succeeds h => exact ⟨[], .succeeds h.granted, hstderr.trans (List.append_nil _).symm⟩
    · rw [if_pos hr, ← show t.stderr = s.stderr from hstderr]
      exact hends.exits hr
  | cons b input ih =>
    obtain ⟨hends, hstderr⟩ := serve_ends hdynamic
      (show RelaysCode (embedjsonPush (δ := δ) cfg p [b]) from embedjsonPush_relaysCode p [b]) h
    rw [lintLoop]
    generalize serve (lintCallback cfg host) (embedjsonPush (δ := δ) cfg p [b]) s = x at hends hstderr
    obtain ⟨⟨r, q⟩, t⟩ := x
    by_cases hr : r = 0
    · subst hr
      cases hends with
      | succeeds h =>
        rw [← show t.stderr = s.stderr from hstderr]
        exact ih q (some b) h
    · rw [if_pos hr, ← show t.stderr = s.stderr from hstderr]
      exact hends.exits hr

variable (cfg host) in
lemma lintMain_exits (hdynamic : cfg.dynamicStack = true) (argv : List String) :
    Lint.Exits host (lintMain cfg host argv) (lintMain cfg host argv).2.stderr := by
  have hzero := lintArguments_eq argv
  have hfresh : Lint.Fresh host (lintArguments argv) := by
    rw [hzero]
    exact ⟨rfl, rfl, nofun⟩
  have hstderr : (lintArguments argv).stderr = [] := by rw [hzero]; rfl
  obtain ⟨text, hexits, htext⟩ := lintLoop_exits hdynamic
    (host.contents (lintArguments argv).inputFile) (.zero cfg) none hfresh
  rw [hstderr, List.nil_append] at htext
  rw [lintMain, htext]
  exact hexits

/-- The program ends with -1 exactly when a `realloc` fails. That is the last one, and the message is
that of `EMBEDJSON_OK`. -/
theorem lint_out_of_memory (hdynamic : cfg.dynamicStack = true) (argv : List String) :
    ((lintMain cfg host argv).1 = -1 ↔
      ∃ n < (lintMain cfg host argv).2.reallocs, host.realloc n = false) ∧
    ((lintMain cfg host argv).1 = -1 →
      (∀ n, n + 1 < (lintMain cfg host argv).2.reallocs → host.realloc n = true) ∧
        (lintMain cfg host argv).2.stderr = Lint.starved) ∧
    ((lintMain cfg host argv).1 ≠ -1 →
      (lintMain cfg host argv).1 = 0 ∧ (lintMain cfg host argv).2.stderr = [] ∨
        (lintMain cfg host argv).1 = 1 ∧
          ∃ symbol, (lintMain cfg host argv).2.stderr = Lint.report symbol) := by
  have hexits := lintMain_exits cfg host hdynamic argv
  generalize (lintMain cfg host argv).2.stderr = text at hexits
  generalize lintMain cfg host argv = x at hexits
  cases hexits with
  | succeeds hgranted =>
    have hcode : (0 : ℤ) ≠ -1 := by decide
    refine ⟨⟨fun h => absurd h hcode, ?_⟩, fun h => absurd h hcode, fun _ => .inl ⟨rfl, rfl⟩⟩
    rintro ⟨n, hn, hrefused⟩
    cases (hgranted n hn).symm.trans hrefused
  | reports symbol hgranted =>
    have hcode : (1 : ℤ) ≠ -1 := by decide
    refine ⟨⟨fun h => absurd h hcode, ?_⟩, fun h => absurd h hcode, fun _ => .inr ⟨rfl, symbol, rfl⟩⟩
    rintro ⟨n, hn, hrefused⟩
    cases (hgranted n hn).symm.trans hrefused
  | @starves _ m hgranted hlast hrefused =>
    refine ⟨⟨fun _ => ⟨m, ?_, hrefused⟩, fun _ => rfl⟩, fun _ => ⟨fun n hn => hgranted n ?_, rfl⟩,
      fun h => absurd rfl h⟩
    · exact (Nat.lt_succ_self m).trans_eq hlast.symm
    · exact Nat.lt_of_succ_lt_succ (hn.trans_eq hlast)

end Requests

def starvedHost : Host ℚ := ⟨fun _ => [91], fun _ => [], fun _ => false⟩

theorem lint_out_of_memory_bracket :
    (lintMain .dynamic starvedHost ["embedjson-lint"]).2.stderr = Lint.starved :=
  ((lint_out_of_memory rfl ["embedjson-lint"]).2.1 rfl).2

section Grants

variable {N : ℕ}

lemma Lint.print_reallocs (s : Lint) (line : List UInt8) : (s.print line).reallocs = s.reallocs := by
  rw [Lint.print_eq]

lemma lintCallback_le (u : UserCall δ) (s : Lint) :
    s.reallocs ≤ (lintCallback cfg host u s).2.reallocs := by
  cases u with
  | stackOverflow => exact Nat.le_succ _
  | error code position => exact le_rfl
  | _ => exact (s.print_reallocs _).ge

variable (cfg host) in
lemma lint_serve_le (m : ParserProgram δ) (s : Lint) :
    s.reallocs ≤ (serve (lintCallback cfg host) m s).2.reallocs :=
  serve_le (S := Lint) lintCallback_le m s

def Host.granting (host : Host δ) (r : ℕ → Bool) : Host δ := { host with realloc := r }

variable {r : ℕ → Bool} (h : ∀ n < N, r n = host.realloc n)

include h

lemma lintCallback_congr (u : UserCall δ) (s : Lint)
    (hN : (lintCallback cfg host u s).2.reallocs ≤ N) :
    lintCallback cfg (host.granting r) u s = lintCallback cfg host u s := by
  cases u with
  | stackOverflow =>
    have hr : r s.reallocs = host.realloc s.reallocs := h _ (Nat.lt_of_succ_le hN)
    simp only [lintCallback, Host.granting, hr]
  | _ => rfl

lemma serve_granting (m : ParserProgram δ) (s : Lint)
    (hN : (serve (lintCallback cfg host) m s).2.reallocs ≤ N) :
    serve (lintCallback cfg (host.granting r)) m s = serve (lintCallback cfg host) m s :=
  serve_congr lintCallback_le (fun u s => lintCallback_congr h u s) m s hN

variable [DoubleArith δ]

omit h in
lemma lintLoop_le (input : List UInt8) (ch : Option UInt8) (p : Parser) (s : Lint) :
    s.reallocs ≤ (lintLoop cfg host input ch p s).2.reallocs := by
  induction input generalizing ch p s with
  | nil =>
    have hle := lint_serve_le cfg host (embedjsonFinalize cfg p) s
    rw [lintLoop]
    split_ifs
    · exact hle
    · exact hle
  | cons b input ih =>
    have hle := lint_serve_le cfg host (embedjsonPush cfg p [b]) s
    rw [lintLoop]
    split_ifs
    · exact hle
    · exact hle.trans (ih _ _ _)

/-- A run sees only the outcomes that it asks for. -/
lemma lintLoop_granting (input : List UInt8) (ch : Option UInt8) (p : Parser) (s : Lint)
    (hN : (lintLoop cfg host input ch p s).2.reallocs ≤ N) :
    lintLoop cfg (host.granting r) input ch p s = lintLoop cfg host input ch p s := by
  induction input generalizing ch p s with
  | nil =>
    rw [lintLoop] at hN
    have hserve : (serve (lintCallback cfg host) (embedjsonFinalize cfg p) s).2.reallocs ≤ N := by
      split_ifs at hN
      · exact hN
      · exact hN
    rw [lintLoop, lintLoop, serve_granting h _ _ hserve]
  | cons b input ih =>
    rw [lintLoop] at hN
    by_cases hcode : (serve (lintCallback cfg host) (embedjsonPush cfg p [b]) s).1.1 ≠ 0
    · rw [if_pos hcode] at hN
      rw [lintLoop, lintLoop, serve_granting h _ _ hN, if_pos hcode, if_pos hcode]
    · rw [if_neg hcode] at hN
      have hserve := (lintLoop_le _ _ _ _).trans hN
      rw [lintLoop, lintLoop, serve_granting h _ _ hserve, if_neg hcode, if_neg hcode]
      exact ih _ _ _ hN

end Grants

section Documents

variable (cfg host) in
lemma served_reallocs (us : List (UserCall δ)) (s : Lint) :
    (served (lintCallback cfg host) s us).reallocs = s.reallocs + us.countP UserCall.isOverflow := by
  induction us generalizing s with
  | nil => rfl
  | cons u us ih =>
    rw [served_cons, ih, List.countP_cons]
    cases u with
    | stackOverflow => exact Nat.add_right_comm _ _ _
    | error code position => rfl
    | _ => exact congrArg (· + _) (s.print_reallocs _)

variable (host) in
lemma transcript_quiet (us : List (UserCall δ)) (s : Lint) :
    s.transcript host (quiet us) = s.transcript host us := by
  have hlines : (quiet us).flatMap (Lint.line host) = us.flatMap (Lint.line host) := by
    induction us with
    | nil => rfl
    | cons u us ih =>
      cases u with
      | stackOverflow => exact ih
      | _ => exact congrArg (_ ++ ·) ih
  rw [Lint.transcript, hlines, Lint.transcript]

variable [DoubleArith δ] (hdebug : cfg.debug = false) (hdynamic : cfg.dynamicStack = true)
  (hdouble : ∀ n, (cfg.growth n).length = n + 1) (hbits : 8 ≤ cfg.intBits)

include hdebug hdynamic hdouble hbits

variable (host) in
lemma lintMain_granted {v : Json δ} (argv : List String)
    (hv : Tokenises cfg (lintInput host argv) (serialise .implemented v)) (hdepth : depth v ≤ 504) :
    ∃ us, view us = traversal v ∧ (lintMain cfg (host.granting fun _ => true) argv).1 = 0 ∧
      (lintMain cfg (host.granting fun _ => true) argv).2.stdout =
        (lintArguments argv).transcript host us ∧
      (lintMain cfg (host.granting fun _ => true) argv).2.reallocs =
        requests (openSteps (traversal v)).2 := by
  have hgrowth (n : ℕ) : cfg.growth n ≠ [] := by
    have hlength := hdouble n
    exact List.ne_nil_of_length_pos (by omega)
  obtain ⟨calls, os, p, hreads, hquiet, -, -, haccounted⟩ := reads_value hdynamic hgrowth hbits
    (P := Accounted) (fun h => h.step hdynamic hdouble) (accounted_zero δ cfg)
    (by decide : 504 < 2 ^ 64) (fun n hn => le_of_grown_double hdouble hn) hv hdepth
  have hmemory : cfg.dynamicStack = true → ∀ n, (host.granting fun _ => true).realloc n = true :=
    fun _ _ => rfl
  have hloop := lintLoop_cases hdebug hmemory (lintInput host argv) (.zero cfg) none
    (lintArguments argv)
  rw [show parseFrom (δ := δ) cfg (.zero cfg) (single (lintInput host argv)) =
    parse cfg (single (lintInput host argv)) from rfl] at hloop
  obtain ⟨l, q, calls', vs, hobserve, hreads', hview, -⟩ | ⟨-, hno⟩ :=
    observe_parse_reads (δ := δ) hdebug (single (lintInput host argv))
  · rw [flatten_single] at hreads'
    obtain rfl : vs = os := hreads'.unique hreads
    rw [hobserve] at hloop
    have hl := observe_some (congrArg Prod.snd hobserve)
    rw [hobserve] at hl
    obtain ⟨n, hserved⟩ := served_lintCallback cfg (host.granting fun _ => true) hl (lintArguments argv)
    have hreallocs := served_reallocs cfg (host.granting fun _ => true) l (lintArguments argv)
    have hx : lintMain cfg (host.granting fun _ => true) argv = (0, _) := hloop
    have hasked : l.countP UserCall.isOverflow = requests (openSteps (traversal v)).2 := by
      rw [← countP_overflow_view, hview, countP_overflow_view, haccounted.asked, ← hquiet,
        openSteps_quiet]
    refine ⟨quiet l, ?_, by rw [hx], ?_, ?_⟩
    · rw [← quiet_view, hview, quiet_view, hquiet, view_traversal hv]
    · rw [hx, hserved, transcript_quiet]
      exact congrArg (· ++ _) (congrArg Lint.stdout (lintArguments_eq argv))
    · rw [hx, hreallocs, hasked, lintArguments_eq]
      exact Nat.zero_add _
  · rw [flatten_single] at hno
    exact absurd hreads (hno calls os)

variable (host) in
/-- The program accepts a document exactly when it gets all the memory that the document needs, and
refuses none for another reason. -/
theorem lint_grants {v : Json δ} (argv : List String)
    (hv : Tokenises cfg (lintInput host argv) (serialise .implemented v)) (hdepth : depth v ≤ 504) :
    ((lintMain cfg host argv).1 = 0 ↔
      ∀ n < requests (openSteps (traversal v)).2, host.realloc n = true) ∧
    ((lintMain cfg host argv).1 ≠ 0 → (lintMain cfg host argv).1 = -1) ∧
    ((lintMain cfg host argv).1 = 0 →
      (lintMain cfg host argv).2.reallocs = requests (openSteps (traversal v)).2 ∧
        ∃ us, view us = traversal v ∧
          (lintMain cfg host argv).2.stdout = (lintArguments argv).transcript host us) := by
  obtain ⟨us, hview, hcode, hstdout, hreallocs⟩ :=
    lintMain_granted host hdebug hdynamic hdouble hbits argv hv hdepth
  have hexits := lintMain_exits cfg host hdynamic argv
  have hneeded (h : ∀ n < requests (openSteps (traversal v)).2, host.realloc n = true) :
      lintMain cfg host argv = lintMain cfg (host.granting fun _ => true) argv := by
    have hagree : ∀ n < requests (openSteps (traversal v)).2,
        host.realloc n = (host.granting fun _ => true).realloc n := h
    exact lintLoop_granting hagree _ _ _ _ hreallocs.le
  have hasked (h : ∀ n < (lintMain cfg host argv).2.reallocs, host.realloc n = true) :
      lintMain cfg (host.granting fun _ => true) argv = lintMain cfg host argv :=
    lintLoop_granting (fun n hn => (h n hn).symm) _ _ _ _ le_rfl
  have hall (h : ∀ n < (lintMain cfg host argv).2.reallocs, host.realloc n = true) :
      (lintMain cfg host argv).1 = 0 ∧
        ∀ n < requests (openSteps (traversal v)).2, host.realloc n = true := by
    rw [hasked h] at hcode hreallocs
    rw [← hreallocs]
    exact ⟨hcode, h⟩
  have hcases : (lintMain cfg host argv).1 = -1 ∨
      ∀ n < (lintMain cfg host argv).2.reallocs, host.realloc n = true := by
    generalize (lintMain cfg host argv).2.stderr = text at hexits
    generalize lintMain cfg host argv = x at hexits
    cases hexits with
    | succeeds hgranted => exact .inr hgranted
    | reports symbol hgranted => exact .inr hgranted
    | starves hgranted hlast hrefused => exact .inl rfl
  refine ⟨⟨fun h => ?_, fun h => (congrArg Prod.fst (hneeded h)).trans hcode⟩, fun h => ?_, fun h => ?_⟩
  · rcases hcases with hstarved | hgranted
    · cases h.symm.trans hstarved
    · exact (hall hgranted).2
  · exact hcases.resolve_right fun hgranted => h (hall hgranted).1
  · rcases hcases with hstarved | hgranted
    · cases h.symm.trans hstarved
    · rw [← hasked hgranted]
      exact ⟨hreallocs, us, hview, hstdout⟩

end Documents

def stingyHost (granted : ℕ) (bytes : List UInt8) : Host ℚ :=
  ⟨fun _ => bytes, fun _ => [], fun n => n < granted⟩

def arrayWithin : ℕ → Json ℚ
  | 0 => .array []
  | n + 1 => .array [arrayWithin n]

def brackets (n : ℕ) : List UInt8 := List.replicate n 91 ++ List.replicate n 93

lemma tokenises_symbols [DoubleArith δ] {bytes : List UInt8} {toks : List Tok}
    (h : bytes.map structural = toks.map some) :
    Tokenises cfg bytes (toks.map (.tok · : Tok → Lexeme δ)) := by
  induction bytes generalizing toks with
  | nil =>
    obtain rfl : toks = [] := List.map_eq_nil_iff.mp h.symm
    exact .nil
  | cons b bytes ih =>
    obtain ⟨tok, toks, rfl, htok, hrest⟩ := List.map_eq_cons_iff.mp h.symm
    exact .token (.symbol htok.symm) (ih hrest.symm)

/-- Nine arrays need two requests, and the second one comes in the middle of the file. -/
theorem lint_grants_nested :
    (lintMain .dynamic (stingyHost 2 (brackets 9)) ["embedjson-lint"]).1 = 0 ∧
      (lintMain .dynamic (stingyHost 1 (brackets 9)) ["embedjson-lint"]).1 = -1 := by
  have hdouble (n : ℕ) : (Config.dynamic.growth n).length = n + 1 := List.length_replicate
  have hsymbols : (brackets 9).map structural =
      (List.replicate 9 Tok.openBracket ++ List.replicate 9 Tok.closeBracket).map some := by decide
  have hv : Tokenises .dynamic (brackets 9) (serialise .implemented (arrayWithin 8)) :=
    tokenises_symbols hsymbols
  have hrequests : requests (openSteps (traversal (arrayWithin 8))).2 = 2 := by decide
  have hlint (granted : ℕ) := lint_grants (stingyHost granted (brackets 9)) rfl rfl hdouble (by decide)
    ["embedjson-lint"] hv (by decide)
  rw [hrequests] at hlint
  refine ⟨(hlint 2).1.mpr fun n hn => decide_eq_true hn, (hlint 1).2.1 fun hzero => ?_⟩
  exact absurd ((hlint 1).1.mp hzero 1 (by decide)) (by decide)

end Embedjson
