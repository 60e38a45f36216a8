import Embedjson.DocumentLanguage
import Embedjson.ErrorPositions
import Embedjson.Lint.Main

namespace Embedjson

open Foundations Foundations.Program Foundations.Utf8 Json

variable {δ : Type} {cfg : Config} {host : Host δ} {s : Lint}

variable (host) in
lemma memory_of_static (hstatic : cfg.dynamicStack = false) :
    cfg.dynamicStack = true → ∀ n, host.realloc n = true := by
  intro hdynamic
  cases hstatic.symm.trans hdynamic

section Callbacks

variable (hmemory : cfg.dynamicStack = true → ∀ n, host.realloc n = true)

include hmemory

lemma lintCallback_answer (u : UserCall δ) (s : Lint) :
    (lintCallback cfg host u s).1 = if u.isError then 1 else 0 := by
  cases u with
  | stackOverflow =>
    have hgranted : (cfg.dynamicStack && !host.realloc s.reallocs) = false := by
      cases hdynamic : cfg.dynamicStack with
      | false => rfl
      | true => rw [hmemory hdynamic]; rfl
    simp [lintCallback, hgranted, UserCall.isError]
  | _ => rfl

lemma lintCallback_accepting (s : Lint) :
    Accepting UserCall.isError (environment (lintCallback cfg host) s) := by
  refine ⟨fun history u hu => ?_, fun history u hu => ?_⟩
  · rw [environment, lintCallback_answer hmemory, if_pos hu]
    exact one_ne_zero
  · rw [environment, lintCallback_answer hmemory, hu]
    rfl

end Callbacks

def Lint.transcript (s : Lint) (host : Host δ) (us : List (UserCall δ)) : List UInt8 :=
  if s.verbose then us.flatMap (Lint.line host) else []

lemma Lint.print_eq (s : Lint) (line : List UInt8) :
    s.print line = { s with stdout := s.stdout ++ if s.verbose then line else [] } := by
  obtain ⟨verbose, _, _, _, _, _, _, _⟩ := s
  cases verbose <;> simp [Lint.print]

variable (cfg host) in
lemma served_lintCallback {us : List (UserCall δ)} (h : ∀ u ∈ us, u.isError = false) (s : Lint) :
    ∃ n, served (lintCallback cfg host) s us =
      { s with stdout := s.stdout ++ s.transcript host us, reallocs := n } := by
  induction us generalizing s with
  | nil => exact ⟨s.reallocs, by simp [Lint.transcript]⟩
  | cons u us ih =>
    obtain ⟨hu, hus⟩ := List.forall_mem_cons.mp h
    have hstep : ∃ m, (lintCallback cfg host u s).2 =
        { s with stdout := s.stdout ++ if s.verbose then Lint.line host u else [], reallocs := m } := by
      cases u with
      | error code position => cases hu
      | stackOverflow => exact ⟨s.reallocs + 1, by simp [lintCallback, Lint.line]⟩
      | _ => exact ⟨s.reallocs, s.print_eq _⟩
    obtain ⟨m, hm⟩ := hstep
    obtain ⟨n, hn⟩ := ih hus (lintCallback cfg host u s).2
    refine ⟨n, ?_⟩
    rw [served_cons, hn, hm]
    cases hv : s.verbose <;> simp [Lint.transcript, hv]

def Lint.fail (s : Lint) (position : Pointer) : Lint :=
  { s with errorPosition := position, errorCode := .internalError }

lemma serve_observe (hmemory : cfg.dynamicStack = true → ∀ n, host.realloc n = true)
    {m : ParserProgram δ} (hm : RelaysCode m) (s : Lint) :
    match observe UserCall.isError m with
    | (us, some a) => serve (lintCallback cfg host) m s = (a, served (lintCallback cfg host) s us)
    | (us, none) => ∃ l code position q, us = l ++ [.error code position] ∧
        (∀ u ∈ l, u.isError = false) ∧ serve (lintCallback cfg host) m s =
          ((1, q), (served (lintCallback cfg host) s l).fail position) := by
  have hrun := serve_eq_run (lintCallback cfg host) m s []
  obtain ⟨h₁, h₂, h₃⟩ := hm.run_accepting (lintCallback_accepting hmemory s) []
  rw [served_nil, List.nil_append, h₁] at hrun
  rcases ho : observe UserCall.isError m with ⟨us, _ | a⟩
  · obtain ⟨l, u, hl, hu, hgood⟩ := observe_none (congrArg Prod.snd ho)
    rw [ho] at h₁ h₃ hrun hl
    obtain rfl : us = l ++ [u] := hl
    cases u with
    | error code position =>
      refine ⟨l, code, position, (run (environment (lintCallback cfg host) s) m []).2.2, rfl, hgood, ?_⟩
      rw [hrun, served_append]
      refine Prod.ext (Prod.ext ?_ rfl) rfl
      rcases hm.run_cases (environment (lintCallback cfg host) s) [] with
        ⟨granted, u, hcalls, -, -, hcode⟩ | ⟨-, hzero⟩
      · obtain ⟨-, hlast⟩ := List.append_inj' (h₁.symm.trans hcalls) rfl
        cases hlast
        exact hcode
      · exact absurd hzero (h₃ rfl)
    | _ => cases hu
  · rw [ho] at h₂ hrun
    rw [hrun, h₂ a rfl]

section Loop

variable [DoubleArith δ] {p : Parser} {input : List UInt8}

def parseFrom (cfg : Config) (p : Parser) (chunks : List (List UInt8)) : ParserProgram δ :=
  (pushAll cfg p chunks).bind fun a => if a.1 ≠ 0 then .done a else embedjsonFinalize cfg a.2

def single (input : List UInt8) : List (List UInt8) := input.map fun b => [b]

@[simp] lemma flatten_single (input : List UInt8) : (single input).flatten = input := by
  induction input with
  | nil => rfl
  | cons b input ih => exact congrArg (b :: ·) ih

lemma observe_parseFrom_cons (chunk : List UInt8) (chunks : List (List UInt8)) :
    observe UserCall.isError (parseFrom (δ := δ) cfg p (chunk :: chunks)) =
      followedBy (observe UserCall.isError (embedjsonPush cfg p chunk)) fun a =>
        observe UserCall.isError (parseFrom cfg a.2 chunks) := by
  rw [parseFrom, pushAll, bind_assoc, observe_bind]
  rcases ho : observe UserCall.isError (embedjsonPush (δ := δ) cfg p chunk) with ⟨us, _ | a⟩
  · rfl
  · have ha : a.1 = 0 := (embedjsonPush_relaysCode p chunk).observe_eq ho
    rw [followedBy_some, followedBy_some, if_neg (not_not_intro ha), parseFrom]

/-- The pushes of the bytes in front of a `b` succeed and lead to `q`. The push of that `b` fails with
an error at `position`. -/
inductive FailsAt (cfg : Config) (p : Parser) (input : List UInt8) (b : UInt8) (q : Parser)
    (position : Pointer) : Prop
  | intro {front rest : List UInt8} {us l : List (UserCall δ)} {code : ErrorCode}
    (hinput : input = front ++ b :: rest)
    (hpush : observe UserCall.isError (pushAll cfg p (single front)) = (us, some (0, q)))
    (hfail : observe UserCall.isError (embedjsonPush cfg q [b]) = (l ++ [.error code position], none)) :
    FailsAt cfg p input b q position

/-- The position of the error that ends a run, and the symbol that is reported with it. A push of one
byte reads in front of that byte when the byte ends a number which the parser refuses. -/
inductive Blames (cfg : Config) (p : Parser) (input : List UInt8) : Pointer → Option UInt8 → Prop
  | nothing {b : UInt8} {q : Parser} (hfail : FailsAt (δ := δ) cfg p input b q .null) :
    Blames cfg p input .null (some '?'.toUInt8)
  | byte {b : UInt8} {q : Parser} (hfail : FailsAt (δ := δ) cfg p input b q (.buffer 0))
    (hfirst : refusesFirst cfg q [b] = false) : Blames cfg p input (.buffer 0) (some b)
  | outside {b : UInt8} {q : Parser} (hfail : FailsAt (δ := δ) cfg p input b q (.buffer (-1)))
    (hfirst : refusesFirst cfg q [b] = true) : Blames cfg p input (.buffer (-1)) none
  | atEnd {us l : List (UserCall δ)} {q : Parser} {code : ErrorCode}
    (hpush : observe UserCall.isError (pushAll cfg p (single input)) = (us, some (0, q)))
    (hfail : observe UserCall.isError (embedjsonFinalize cfg q) = (l ++ [.error code .null], none)) :
    Blames cfg p input .null (some '?'.toUInt8)

lemma observe_pushAll_single {b : UInt8} {front : List UInt8} {us vs : List (UserCall δ)} {q t : Parser}
    (hpush : observe UserCall.isError (embedjsonPush cfg p [b]) = (us, some (0, q)))
    (h : observe UserCall.isError (pushAll cfg q (single front)) = (vs, some (0, t))) :
    observe UserCall.isError (pushAll cfg p (single (b :: front))) = (us ++ vs, some (0, t)) := by
  rw [single, List.map_cons, pushAll, observe_bind, hpush, followedBy_some,
    if_neg (not_not_intro rfl), ← single, h]

lemma Blames.cons {b : UInt8} {us : List (UserCall δ)} {q : Parser} {position : Pointer}
    {symbol : Option UInt8}
    (hpush : observe UserCall.isError (embedjsonPush cfg p [b]) = (us, some (0, q)))
    (h : Blames (δ := δ) cfg q input position symbol) :
    Blames (δ := δ) cfg p (b :: input) position symbol := by
  have hlater {c : UInt8} {t : Parser} {position : Pointer}
      (h : FailsAt (δ := δ) cfg q input c t position) :
      FailsAt (δ := δ) cfg p (b :: input) c t position := by
    cases h with
    | intro hinput hfront hfail =>
      exact .intro (congrArg (b :: ·) hinput) (observe_pushAll_single hpush hfront) hfail
  cases h with
  | nothing hfail => exact .nothing (hlater hfail)
  | byte hfail hfirst => exact .byte (hlater hfail) hfirst
  | outside hfail hfirst => exact .outside (hlater hfail) hfirst
  | atEnd hinput hfail => exact .atEnd (observe_pushAll_single hpush hinput) hfail

variable (input) in
lemma push_blames {b : UInt8} {l : List (UserCall δ)} {code : ErrorCode} {position : Pointer}
    (hdebug : cfg.debug = false)
    (h : observe UserCall.isError (embedjsonPush cfg p [b]) = (l ++ [.error code position], none)) :
    ∃ symbol, Blames (δ := δ) cfg p (b :: input) position symbol ∧
      Lint.symbol (some b) position = symbol := by
  have hfail : FailsAt (δ := δ) cfg p (b :: input) b p position :=
    .intro rfl (show observe UserCall.isError (pushAll cfg p (single [])) = ([], some (0, p)) from rfl) h
  cases hfirst : refusesFirst cfg p [b] with
  | true =>
    obtain ⟨code', next, hpush⟩ := push_refusesFirst (δ := δ) hfirst
    rw [hpush, observe_call_of_mem rfl, Prod.mk.injEq] at h
    obtain ⟨-, hlast⟩ := List.append_inj' (show [] ++ [_] = _ from h.1) rfl
    cases hlast
    exact ⟨none, .outside hfail hfirst, rfl⟩
  | false =>
    have hfast : RelaysCode (embedjsonPush (δ := δ) cfg p [b]) := embedjsonPush_relaysCode p [b]
    have hcalls : ∀ u ∈ (run (accept UserCall.isError) (embedjsonPush (δ := δ) cfg p [b]) []).1,
        u.Within 1 := push_within hfirst fun y _ => refusesEscape_of_release hdebug y.1 y.2
    rw [(hfast.run_accepting (accepting_accept _) []).1, h] at hcalls
    have herror := hcalls (.error code position) (List.mem_append_right _ List.mem_cons_self) _ _ rfl
    by_cases hnull : position = .null
    · subst hnull
      exact ⟨_, .nothing hfail, rfl⟩
    · obtain ⟨i, rfl, hi, hlt⟩ := herror hnull
      obtain rfl : i = 0 := by
        rw [Nat.cast_one] at hlt
        omega
      exact ⟨some b, .byte hfail hfirst, rfl⟩

variable (cfg p) in
lemma finalize_errsAt : ErrsAt .null (embedjsonFinalize (δ := δ) cfg p) := by
  have hcall (f : LexerCall δ) (hf : f.pointer = .null) :
      ErrsAt .null (interpret (onLexerCall cfg) (invoke f) p) := by
    refine (hf ▸ onLexerCall_errsAt cfg f p).bind fun a _ => ?_
    trivial
  have hlexer : ErrsAt .null
      (interpret (onLexerCall cfg) (embedjsonLexerFinalize (δ := δ) cfg p.lexer) p) := by
    rw [embedjsonLexerFinalize]
    cases p.lexer.state with
    | lookupToken => exact trivial
    | _ => exact hcall _ rfl
  refine hlexer.bind fun a _ => ?_
  exact ErrsAt.ite trivial (ErrsAt.ite (.returnErrorEx _) .succeed)

lemma finalize_blames {l : List (UserCall δ)} {code : ErrorCode} {position : Pointer}
    (h : observe UserCall.isError (embedjsonFinalize cfg p) = (l ++ [.error code position], none)) :
    position = .null := by
  have hfast : RelaysCode (embedjsonFinalize (δ := δ) cfg p) := embedjsonFinalize_relaysCode p
  have hcalls : ∀ u ∈ (run (accept UserCall.isError) (embedjsonFinalize (δ := δ) cfg p) []).1,
      u.At .null := ((finalize_errsAt cfg p).run _ []).1
  rw [(hfast.run_accepting (accepting_accept _) []).1, h] at hcalls
  exact (or_self_iff.mp
    (hcalls (.error code position) (List.mem_append_right _ List.mem_cons_self) _ _ rfl))

lemma lintLoop_cases (hdebug : cfg.debug = false)
    (hmemory : cfg.dynamicStack = true → ∀ n, host.realloc n = true)
    (input : List UInt8) (p : Parser) (ch : Option UInt8) (s : Lint) :
    match observe UserCall.isError (parseFrom (δ := δ) cfg p (single input)) with
    | (us, some _) => lintLoop cfg host input ch p s = (0, served (lintCallback cfg host) s us)
    | (us, none) => ∃ l code position ch', us = l ++ [.error code position] ∧
        (∀ u ∈ l, u.isError = false) ∧
        Blames (δ := δ) cfg p input position (Lint.symbol ch' position) ∧
        lintLoop cfg host input ch p s =
          (1, ((served (lintCallback cfg host) s l).fail position).complain ch') := by
  induction input generalizing p ch s with
  | nil =>
    have hserve := serve_observe hmemory
      (show RelaysCode (embedjsonFinalize (δ := δ) cfg p) from embedjsonFinalize_relaysCode p) s
    rw [show parseFrom (δ := δ) cfg p (single []) = embedjsonFinalize cfg p from rfl]
    rcases ho : observe UserCall.isError (embedjsonFinalize (δ := δ) cfg p) with ⟨us, _ | a⟩
    · rw [ho] at hserve
      obtain ⟨l, code, position, q, rfl, hl, hrun⟩ := hserve
      obtain rfl := finalize_blames ho
      have hnil : observe UserCall.isError (pushAll cfg p (single [])) =
          (([] : List (UserCall δ)), some (0, p)) := rfl
      refine ⟨l, code, .null, ch, rfl, hl, .atEnd hnil ho, ?_⟩
      rw [lintLoop, hrun]
      rfl
    · have ha : a.1 = 0 := (embedjsonFinalize_relaysCode p).observe_eq ho
      rw [ho] at hserve
      simp only [lintLoop, hserve, ha, ne_eq, not_true_eq_false, if_false]
  | cons b input ih =>
    have hserve := serve_observe hmemory
      (show RelaysCode (embedjsonPush (δ := δ) cfg p [b]) from embedjsonPush_relaysCode p [b]) s
    rw [single, List.map_cons, observe_parseFrom_cons, ← single]
    rcases ho : observe UserCall.isError (embedjsonPush (δ := δ) cfg p [b]) with ⟨us, _ | a⟩
    · rw [ho] at hserve
      obtain ⟨l, code, position, q, rfl, hl, hrun⟩ := hserve
      obtain ⟨symbol, hblames, hsymbol⟩ := push_blames input hdebug ho
      refine ⟨l, code, position, some b, rfl, hl, hsymbol ▸ hblames, ?_⟩
      rw [lintLoop, hrun]
      rfl
    · obtain ⟨r, q⟩ := a
      obtain rfl : r = 0 := (embedjsonPush_relaysCode p [b]).observe_eq ho
      rw [ho] at hserve
      have hloop : lintLoop cfg host (b :: input) ch p s =
          lintLoop cfg host input (some b) q (served (lintCallback cfg host) s us) := by
        simp only [lintLoop, hserve, ne_eq, not_true_eq_false, if_false]
      have hrest := ih q (some b) (served (lintCallback cfg host) s us)
      rw [followedBy_some, hloop]
      rcases hq : observe UserCall.isError (parseFrom (δ := δ) cfg q (single input)) with ⟨vs, _ | a⟩
      · rw [hq] at hrest
        obtain ⟨l, code, position, ch', rfl, hl, hblames, hrest⟩ := hrest
        have hus := observe_some (congrArg Prod.snd ho)
        rw [ho] at hus
        refine ⟨us ++ l, code, position, ch', (List.append_assoc _ _ _).symm,
          List.forall_mem_append.mpr ⟨hus, hl⟩, hblames.cons ho, ?_⟩
        rw [hrest, served_append]
      · rw [hq] at hrest
        exact hrest.trans (congrArg (Prod.mk 0) (served_append _ _ _).symm)

lemma lintLoop_outside {front : List UInt8} {b : UInt8} {us : List (UserCall δ)} {q : Parser}
    (rest : List UInt8) (hmemory : cfg.dynamicStack = true → ∀ n, host.realloc n = true)
    (hpush : observe UserCall.isError (pushAll cfg p (single front)) = (us, some (0, q)))
    (hfirst : refusesFirst cfg q [b] = true) (ch : Option UInt8) (s : Lint) :
    (lintLoop cfg host (front ++ b :: rest) ch p s).2.broken = true := by
  induction front generalizing p us ch s with
  | nil =>
    cases hpush
    obtain ⟨code, next, hcall⟩ := push_refusesFirst (δ := δ) hfirst
    have hserve := serve_observe hmemory
      (show RelaysCode (embedjsonPush (δ := δ) cfg q [b]) from embedjsonPush_relaysCode q [b]) s
    rw [hcall, observe_call_of_mem rfl] at hserve
    obtain ⟨l, code', position, t, hl, -, hrun⟩ := hserve
    obtain ⟨-, hlast⟩ := List.append_inj' (show [] ++ [_] = _ from hl) rfl
    cases hlast
    rw [List.nil_append, lintLoop, hcall, hrun]
    simp [Lint.complain, Lint.fail, Lint.symbol]
  | cons a front ih =>
    rw [single, List.map_cons, ← single] at hpush
    obtain ⟨vs, ws, t, ha, hrest, -⟩ := observe_pushAll_cons hpush
    have hserve := serve_observe hmemory
      (show RelaysCode (embedjsonPush (δ := δ) cfg p [a]) from embedjsonPush_relaysCode p [a]) s
    rw [ha] at hserve
    have hloop := ih hrest (some a) (served (lintCallback cfg host) s vs)
    rw [List.cons_append]
    simpa only [lintLoop, hserve, ne_eq, not_true_eq_false, if_false] using hloop

end Loop

section Main

variable [DoubleArith δ]

def Lint.isFlag (arg : String) : Bool := arg = "-v" || arg = "--verbose"

omit [DoubleArith δ] in
lemma foldl_argument (args : List String) (s : Lint) :
    args.foldl Lint.argument s =
      { s with
        verbose := s.verbose || args.any Lint.isFlag
        inputFile := (args.filter fun arg => !Lint.isFlag arg).getLast?.or s.inputFile } := by
  induction args generalizing s with
  | nil => simp
  | cons arg args ih =>
    rw [List.foldl_cons, ih]
    by_cases hflag : Lint.isFlag arg = true
    · have harg : s.argument arg = { s with verbose := true } := by
        simp only [Lint.isFlag, Bool.or_eq_true, decide_eq_true_eq] at hflag
        rcases hflag with rfl | rfl <;> rfl
      simp [harg, hflag]
    · have harg : s.argument arg = { s with inputFile := some arg } := by
        simp only [Lint.isFlag, Bool.or_eq_true, decide_eq_true_eq, not_or] at hflag
        rw [Lint.argument, if_neg hflag.1, if_neg hflag.2]
      have hlast (files : List String) :
          files.getLast?.or (some arg) = (arg :: files).getLast?.or s.inputFile := by
        rw [List.getLast?_cons]
        cases files.getLast? <;> rfl
      simp only [harg, hflag, List.any_cons, Bool.false_or, List.filter_cons, Bool.not_false, if_true,
        hlast]

lemma lintArguments_eq (argv : List String) :
    lintArguments argv =
      { Lint.zero with
        verbose := argv.tail.any Lint.isFlag
        inputFile := (argv.tail.filter fun arg => !Lint.isFlag arg).getLast? } := by
  rw [lintArguments, foldl_argument]
  simp [Lint.zero]

def Lint.report (symbol : Option UInt8) : List UInt8 :=
  ascii "error parsing json near symbol '" ++ symbol.toList ++ ascii "': " ++
    ascii (embedjsonStrerror .internalError) ++ ascii "\n"

def lintInput (host : Host δ) (argv : List String) : List UInt8 :=
  host.contents (lintArguments argv).inputFile

variable (host)

theorem lint_report (hdebug : cfg.debug = false) (hstatic : cfg.dynamicStack = false)
    (argv : List String) :
    ((lintMain cfg host argv).1 = 0 ∧ (lintMain cfg host argv).2.stderr = [] ∨
      (lintMain cfg host argv).1 = 1 ∧ ∃ position symbol,
        Blames (δ := δ) cfg (.zero cfg) (lintInput host argv) position symbol ∧
          (lintMain cfg host argv).2.stderr = Lint.report symbol) ∧
    ((lintMain cfg host argv).2.broken = true ↔
      ∃ front b rest, ∃ (us : List (UserCall δ)) (q : Parser),
      lintInput host argv = front ++ b :: rest ∧
      observe UserCall.isError (pushAll cfg (.zero cfg) (single front)) = (us, some (0, q)) ∧
      refusesFirst cfg q [b] = true) := by
  have houtside {front rest : List UInt8} {b : UInt8} {us : List (UserCall δ)} {q : Parser}
      (hinput : lintInput host argv = front ++ b :: rest)
      (hpush : observe UserCall.isError (pushAll cfg (.zero cfg) (single front)) = (us, some (0, q)))
      (hfirst : refusesFirst cfg q [b] = true) : (lintMain cfg host argv).2.broken = true := by
    have h := lintLoop_outside rest (memory_of_static host hstatic) hpush hfirst none
      (lintArguments argv)
    rwa [← hinput] at h
  obtain ⟨hstderr, hbroken⟩ :
      (lintArguments argv).stderr = [] ∧ (lintArguments argv).broken = false := by
    rw [lintArguments_eq]
    exact ⟨rfl, rfl⟩
  have hloop := lintLoop_cases hdebug (memory_of_static host hstatic) (lintInput host argv)
    (.zero cfg) none (lintArguments argv)
  rcases ho : observe UserCall.isError
      (parseFrom (δ := δ) cfg (.zero cfg) (single (lintInput host argv))) with ⟨us, _ | a⟩
  · rw [ho] at hloop
    obtain ⟨l, code, position, ch', rfl, hl, hblames, hrun⟩ := hloop
    obtain ⟨n, hserved⟩ := served_lintCallback cfg host hl (lintArguments argv)
    have hx : lintMain cfg host argv = (1, _) := hrun
    rw [hx, hserved]
    refine ⟨.inr ⟨rfl, position, _, hblames, ?_⟩, fun h => ?_, ?_⟩
    · simp [Lint.complain, Lint.fail, Lint.report, hstderr]
    · have hnone : Lint.symbol ch' position = none := by
        simpa [Lint.complain, Lint.fail, hbroken] using h
      rw [hnone] at hblames
      cases hblames with
      | outside hfail hfirst =>
        obtain ⟨hinput, hpush, -⟩ := hfail
        exact ⟨_, _, _, _, _, hinput, hpush, hfirst⟩
    · rintro ⟨front, b, rest, us, q, hinput, hpush, hfirst⟩
      have h := houtside hinput hpush hfirst
      rwa [hx, hserved] at h
  · rw [ho] at hloop
    have hus := observe_some (congrArg Prod.snd ho)
    rw [ho] at hus
    obtain ⟨n, hserved⟩ := served_lintCallback cfg host hus (lintArguments argv)
    have hx : lintMain cfg host argv = (0, _) := hloop
    rw [hserved] at hx
    refine ⟨.inl ⟨by rw [hx], by rw [hx]; exact hstderr⟩, fun h => ?_, ?_⟩
    · rw [hx] at h
      cases hbroken.symm.trans h
    · rintro ⟨front, b, rest, us, q, hinput, hpush, hfirst⟩
      exact houtside hinput hpush hfirst

/-- The program reads its command line, accepts the documents of the parser, and prints their
traversal in a verbose run. -/
theorem lint_verdict (hdebug : cfg.debug = false) (hstatic : cfg.dynamicStack = false)
    (hbits : 8 ≤ cfg.intBits) (argv : List String)
    (hutf8 : cfg.validateUtf8 = true → WellFormed (lintInput host argv)) :
    lintArguments argv =
      { Lint.zero with
        verbose := argv.tail.any Lint.isFlag
        inputFile := (argv.tail.filter fun arg => !Lint.isFlag arg).getLast? } ∧
    ((lintMain cfg host argv).1 = 0 ↔ ∃ v : Json δ,
      Tokenises cfg (lintInput host argv) (serialise .implemented v) ∧ depth v ≤ cfg.stackLimit) ∧
    ((lintMain cfg host argv).1 = 0 → ∃ (v : Json δ) (us : List (UserCall δ)),
      Tokenises cfg (lintInput host argv) (serialise .implemented v) ∧ view us = traversal v ∧
        (lintMain cfg host argv).2.stdout = (lintArguments argv).transcript host us) ∧
    ((lintMain cfg host argv).1 ≠ 0 → cfg.bignum = false → ∃ (v : Json δ) (us : List (UserCall δ)),
      us <+: traversal v ∧
        (lintMain cfg host argv).2.stdout = (lintArguments argv).transcript host us) := by
  have hstdout : (lintArguments argv).stdout = [] := by
    rw [lintArguments_eq]
    rfl
  have hloop := lintLoop_cases hdebug (memory_of_static host hstatic) (lintInput host argv)
    (.zero cfg) none (lintArguments argv)
  have hiff (us : List (UserCall δ)) := observe_parse_iff (single (lintInput host argv)) hdebug
    hstatic hbits (by simpa using hutf8) us
  rw [flatten_single] at hiff
  change match observe UserCall.isError (parse (δ := δ) cfg (single (lintInput host argv))) with
    | (us, some _) => _
    | (us, none) => _ at hloop
  rcases ho : observe UserCall.isError (parse (δ := δ) cfg (single (lintInput host argv))) with
    ⟨us, _ | ⟨code, q⟩⟩
  · rw [ho] at hloop
    obtain ⟨l, code, position, ch', rfl, hl, -, hrun⟩ := hloop
    obtain ⟨n, hserved⟩ := served_lintCallback cfg host hl (lintArguments argv)
    have hx : lintMain cfg host argv = (1, _) := hrun
    rw [hx, hserved]
    refine ⟨lintArguments_eq argv, ⟨nofun, ?_⟩, nofun, fun _ hbignum => ?_⟩
    · rintro ⟨v, hv, hdepth⟩
      obtain ⟨_, _, hobserve, -⟩ := (hiff (traversal v)).mpr ⟨v, hv, hdepth, rfl⟩
      cases ho.symm.trans hobserve
    · have hseen := observe_parse (δ := δ) hbignum hstatic (single (lintInput host argv))
      rw [ho] at hseen
      obtain ⟨ws, u, heq, -, v, hprefix⟩ := hseen
      obtain ⟨rfl, -⟩ := List.append_inj' heq rfl
      exact ⟨v, l, hprefix, congrArg (· ++ _) hstdout⟩
  · rw [ho] at hloop
    have hus := observe_some (congrArg Prod.snd ho)
    rw [ho] at hus
    obtain rfl : code = 0 := (parse_relaysCode cfg (single (lintInput host argv))).observe_eq ho
    obtain ⟨n, hserved⟩ := served_lintCallback cfg host hus (lintArguments argv)
    have hx : lintMain cfg host argv = (0, _) := hloop
    obtain ⟨v, hv, hdepth, hview⟩ := (hiff (view us)).mp ⟨us, q, ho, rfl⟩
    rw [hx, hserved]
    exact ⟨lintArguments_eq argv, ⟨fun _ => ⟨v, hv, hdepth⟩, fun _ => rfl⟩,
      fun _ => ⟨v, us, hv, hview, congrArg (· ++ _) hstdout⟩, fun h => absurd rfl h⟩

end Main

def oneFile (bytes : List UInt8) : Host ℚ := ⟨fun _ => bytes, fun _ => [], fun _ => true⟩

/-- The text `1 2 `. The second space ends a number that is refused. -/
theorem lint_report_second_number :
    ∃ front b rest, ∃ (us : List (UserCall ℚ)) (q : Parser), [49, 32, 50, 32] = front ++ b :: rest ∧
      observe UserCall.isError (pushAll .default (.zero .default) (single front)) =
        (us, some (0, q)) ∧ refusesFirst .default q [b] = true :=
  (lint_report (oneFile [49, 32, 50, 32]) rfl rfl ["embedjson-lint"]).2.mp (by decide)

/-- The array `[7]` in a verbose run. -/
theorem lint_verdict_array :
    ∃ (v : Json ℚ) (us : List (UserCall ℚ)),
      Tokenises .default [91, 55, 93] (serialise .implemented v) ∧ view us = traversal v ∧
        (lintMain .default (oneFile [91, 55, 93]) ["embedjson-lint", "-v", "file"]).2.stdout =
          us.flatMap (Lint.line (oneFile [91, 55, 93])) :=
  (lint_verdict (oneFile [91, 55, 93]) rfl rfl (by decide) ["embedjson-lint", "-v", "file"]
    fun _ => ⟨"[7]".toList, by decide⟩).2.2.1 (by decide)

end Embedjson
