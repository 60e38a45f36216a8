import Embedjson.Lexer.Order
import Embedjson.Parser.Moves
import Embedjson.Parser.ReturnCodes

/-! The states of the parser and the top of its stack stay together in every run, whatever the
callbacks of the application return. -/

namespace Embedjson

open Foundations Foundations.Program

variable {δ : Type}

/-- The calls of the lexer in a row, up to the first non-zero code. -/
def drive (cfg : Config) : Parser → List (LexerCall δ) → ParserProgram δ
  | p, [] => succeed p
  | p, f :: calls =>
    (onLexerCall cfg f p).bind fun a => if a.1 ≠ 0 then .done a else drive cfg a.2 calls

lemma drive_relaysCode (cfg : Config) (p : Parser) (calls : List (LexerCall δ)) :
    RelaysCode (drive cfg p calls) := by
  induction calls generalizing p with
  | nil => exact relaysCode_succeed p
  | cons f calls ih => exact (onLexerCall_relaysCode f p).andThen fun a => ih a.2

lemma drive_append (l m : List (LexerCall δ)) (p : Parser) :
    drive cfg p (l ++ m) =
      (drive cfg p l).bind fun a => if a.1 ≠ 0 then .done a else drive cfg a.2 m := by
  induction l generalizing p with
  | nil => rfl
  | cons f l ih =>
    simp only [List.cons_append, drive, bind_assoc]
    refine congrArg _ (funext fun a => ?_)
    by_cases h : a.1 = 0
    · rw [if_neg (not_not_intro h), if_neg (not_not_intro h), ih]
    · rw [if_pos h, if_pos h, done_bind, if_pos h]

section Append

variable {cfg : Config} {p : Parser} {answer : List (UserCall δ) → UserCall δ → ℤ}
  {history : List (UserCall δ)}

lemma run_drive_append_ok {l : List (LexerCall δ)} (h : (run answer (drive cfg p l) history).2.1 = 0)
    (m : List (LexerCall δ)) :
    run answer (drive cfg p (l ++ m)) history =
      ((run answer (drive cfg p l) history).1 ++
        (run answer (drive cfg (run answer (drive cfg p l) history).2.2 m)
          (history ++ (run answer (drive cfg p l) history).1)).1,
        (run answer (drive cfg (run answer (drive cfg p l) history).2.2 m)
          (history ++ (run answer (drive cfg p l) history).1)).2) := by
  rw [drive_append, run_bind, if_neg (not_not_intro h)]

lemma run_drive_append_failed {l : List (LexerCall δ)}
    (h : (run answer (drive cfg p l) history).2.1 ≠ 0) (m : List (LexerCall δ)) :
    run answer (drive cfg p (l ++ m)) history = run answer (drive cfg p l) history := by
  rw [drive_append, run_bind, if_pos h]
  simp [run]

end Append

structure StackInvariant (p : Parser) : Prop where
  size : p.stackSize ≤ 128
  outside : p.state = .expectValue ∨ p.state = .done → p.stackSize = 0
  inObject : p.state = .maybeObjectKey ∨ p.state = .expectObjectKey ∨ p.state = .expectColon ∨
    p.state = .maybeObjectComma ∨ p.state = .expectObjectValue →
      p.stackSize ≠ 0 ∧ stackTop p = .curly
  inArray : p.state = .maybeArrayValue ∨ p.state = .expectArrayValue ∨
    p.state = .maybeArrayComma → p.stackSize ≠ 0 ∧ stackTop p = .square
  valid : p.state ≠ .invalid

/-- The run ended when the application refused an opening bracket. -/
def RefusedOpening (x : List (UserCall δ) × ℤ × Parser) : Prop :=
  x.2.1 ≠ 0 ∧ ∃ u, x.1.getLast? = some u ∧ u.isOpening

structure SafeOutcome (cfg : Config) (x : List (UserCall δ) × ℤ × Parser) : Prop where
  harmless : Harmless cfg x.2.2
  quiet : ∀ position, .error .internalError position ∉ x.1
  intact : ¬RefusedOpening x → Intact cfg x.2.2
  pushed : RefusedOpening x → Intact cfg (stackPop x.2.2)

lemma not_refusedOpening_of_zero {x : List (UserCall δ) × ℤ × Parser} (h : x.2.1 = 0) :
    ¬RefusedOpening x :=
  fun hx => hx.1 h

lemma refusedOpening_append {us vs : List (UserCall δ)} {r : ℤ × Parser} (h : r.1 ≠ 0 → vs ≠ []) :
    RefusedOpening (us ++ vs, r) ↔ RefusedOpening (vs, r) :=
  and_congr_right fun hz => by rw [List.getLast?_append_of_ne_nil _ (h hz)]

variable {cfg : Config} {p : Parser} {c : Conf} {answer : List (UserCall δ) → UserCall δ → ℤ}

lemma stackInvariant_of_represents (hcfg : cfg.stackLimit = 128) (hr : Represents cfg p c)
    (hc : c.Wf) : StackInvariant p := by
  have hne {top : StackValue} {rest : List StackValue} (h : c.stack = top :: rest) :
      p.stackSize ≠ 0 ∧ stackTop p = top := by
    refine ⟨?_, hr.stackTop h⟩
    rw [hr.size_eq, h]
    simp
  refine ⟨hcfg ▸ hr.size, fun hs => ?_, fun hs => ?_, fun hs => ?_, (hr.harmless hc).valid⟩
  · rw [hr.state] at hs
    have hnil : c.stack = [] := by rcases hs with hs | hs <;> simpa [Conf.Wf, hs] using hc
    rw [hr.size_eq, hnil, List.length_nil]
  · rw [hr.state] at hs
    have htop : ∃ rest, c.stack = .curly :: rest := by
      rcases hs with hs | hs | hs | hs | hs <;> simpa [Conf.Wf, hs] using hc
    exact hne htop.choose_spec
  · rw [hr.state] at hs
    have htop : ∃ rest, c.stack = .square :: rest := by
      rcases hs with hs | hs | hs <;> simpa [Conf.Wf, hs] using hc
    exact hne htop.choose_spec

variable (answer) in
/-- Calls in a row are all accepted, or the last of those made is refused. -/
lemma run_perform (p' q : Parser) (us : List (UserCall δ)) (history : List (UserCall δ)) :
    (run answer (perform p' q us) history).2.1 = 0 ∧
        (run answer (perform p' q us) history).2.2 = p' ∨
      (∃ u ∈ us, (run answer (perform p' q us) history).1.getLast? = some u) ∧
        (run answer (perform p' q us) history).2.1 ≠ 0 ∧
        (run answer (perform p' q us) history).2.2 = q := by
  induction us generalizing history with
  | nil => exact .inl ⟨rfl, rfl⟩
  | cons u us ih =>
    simp only [perform, run]
    by_cases h : answer history u = 0
    · rw [if_neg (not_not_intro h)]
      refine (ih _).imp_right fun hlater => ?_
      obtain ⟨⟨v, hv, hlast⟩, hend⟩ := hlater
      exact ⟨⟨v, List.mem_cons_of_mem _ hv, by simp [List.getLast?_cons, hlast]⟩, hend⟩
    · rw [if_pos h]
      exact .inr ⟨⟨u, List.mem_cons_self .., rfl⟩, h, rfl⟩

variable (answer) in
lemma run_perform_calls (p' q : Parser) (us history : List (UserCall δ)) :
    ∀ u ∈ (run answer (perform p' q us) history).1, u ∈ us := by
  induction us generalizing history with
  | nil => simp [perform, succeed, run]
  | cons u us ih =>
    simp only [perform, run, List.forall_mem_cons]
    refine ⟨List.mem_cons_self .., fun v hv => ?_⟩
    by_cases h : answer history u = 0
    · rw [if_neg (not_not_intro h)] at hv
      exact List.mem_cons_of_mem _ (ih _ v hv)
    · simp [if_pos h, run] at hv

lemma expects_of_phase {b b' : Bool} {f : LexerCall δ} (h : phase b f = some b')
    (hb : b = true → afterString c.state ≠ none) : c.Expects f := by
  cases f with
  | tokencEnd position =>
    cases b with
    | false => cases h
    | true => exact hb rfl
  | errorEx code position =>
    intro hcode
    cases b <;> simp [phase, hcode] at h
  | tokenbnBegin _ _ | tokenbn _ _ | tokenbnEnd _ => cases b <;> cases h
  | _ => trivial

lemma afterString_of_phase {A : Automaton} {b b' : Bool} {f : LexerCall δ} {c' : Conf}
    {us : List (UserCall δ)} (h : phase b f = some b') (hm : A.call c f = some (us, c'))
    (hb : b = true → afterString c.state ≠ none) : b' = true → afterString c'.state ≠ none := by
  rintro rfl
  cases f with
  | tokencBegin position =>
    obtain ⟨s, hs, heq⟩ := Option.map_eq_some_iff.mp hm
    cases heq
    simp [hs]
  | tokenc data bytes =>
    cases hm
    cases b with
    | false => cases h
    | true => exact hb rfl
  | errorEx code position => cases hm
  | _ => cases b <;> cases h

section Runs

variable (hE : ∀ history code position, answer history (.error code position) ≠ 0)

include hE

lemma onLexerCall_safe {b b' : Bool} {f : LexerCall δ} (hr : Represents cfg p c) (hc : c.Wf)
    (hstatic : cfg.dynamicStack = false) (hb : b = true → afterString c.state ≠ none)
    (hf : phase b f = some b') (history : List (UserCall δ)) :
    SafeOutcome cfg (run answer (onLexerCall cfg f p) history) ∧
      ((run answer (onLexerCall cfg f p) history).2.1 = 0 → ∃ c' : Conf,
        Represents cfg (run answer (onLexerCall cfg f p) history).2.2 c' ∧ c'.Wf ∧
          (b' = true → afterString c'.state ≠ none)) := by
  have himp := onLexerCall_implements hr hc hstatic (expects_of_phase hf hb)
  cases hm : cfg.automaton.call c f with
  | none =>
    rw [hm] at himp
    obtain ⟨code, position, next, hcode, heq, hnext⟩ := himp
    rw [heq, run, hnext _ (hE _ _ _), run]
    have herror : ¬RefusedOpening ([UserCall.error (δ := δ) code position],
        answer history (.error code position), p) := by
      rintro ⟨-, u, hu, hopens⟩
      cases hu
      cases hopens
    refine ⟨⟨hr.harmless hc, ?_, fun _ => ⟨c, hr, hc⟩, fun h => absurd h herror⟩,
      fun h => absurd h (hE _ _ _)⟩
    intro position' hmem
    cases List.mem_singleton.mp hmem
    exact hcode rfl
  | some a =>
    obtain ⟨us, c'⟩ := a
    rw [hm] at himp
    obtain ⟨p', q, hr', hq, heq, hus⟩ := himp
    have hc' : c'.Wf := Automaton.call_wf (.inl rfl) hc hm
    have hcalls := run_perform_calls answer p' q us history
    rw [heq]
    have hquiet : ∀ position,
        .error .internalError position ∉ (run answer (perform p' q us) history).1 :=
      fun position hmem => by simpa [UserCall.isError] using (hus _ (hcalls _ hmem)).1
    rcases run_perform answer p' q us history with ⟨hz, hp⟩ | ⟨⟨u, hu, hlast⟩, hz, hp⟩
    · rw [← hp] at hr'
      exact ⟨⟨hr'.harmless hc', hquiet, fun _ => ⟨c', hr', hc'⟩,
        fun h => absurd h (not_refusedOpening_of_zero hz)⟩,
        fun _ => ⟨c', hr', hc', afterString_of_phase hf hm hb⟩⟩
    · obtain ⟨-, hrefused⟩ := hus u hu
      rw [← hp] at hq hrefused
      refine ⟨⟨hq, hquiet, fun hx => ?_, fun hx => ?_⟩, fun h => absurd h hz⟩
      · have hopens : ¬u.isOpening = true := fun hopens => hx ⟨hz, u, hlast, hopens⟩
        rwa [Refused, if_neg hopens] at hrefused
      · obtain ⟨-, v, hv, hopens⟩ := hx
        obtain rfl : u = v := Option.some.inj (hlast.symm.trans hv)
        rwa [Refused, if_pos hopens] at hrefused

variable (answer) in
lemma drive_safe {calls : List (LexerCall δ)} {b : Bool} (horder : InOrder b calls)
    (hr : Represents cfg p c) (hc : c.Wf) (hstatic : cfg.dynamicStack = false)
    (hb : b = true → afterString c.state ≠ none) (history : List (UserCall δ)) :
    SafeOutcome cfg (run answer (drive cfg p calls) history) ∧
      ∀ debug, run answer (drive { cfg with debug := debug } p calls) history =
        run answer (drive cfg p calls) history := by
  induction calls generalizing p c b history with
  | nil =>
    exact ⟨⟨hr.harmless hc, by simp [drive, succeed, run], fun _ => ⟨c, hr, hc⟩,
      fun h => absurd h (not_refusedOpening_of_zero rfl)⟩, fun _ => rfl⟩
  | cons f calls ih =>
    obtain ⟨b', hf, horder⟩ := inOrder_cons.mp horder
    have hexp := expects_of_phase hf hb
    obtain ⟨hsafe, hnext⟩ := onLexerCall_safe hE hr hc hstatic hb hf history
    simp only [drive, onLexerCall_debug hr hc _ hexp, run_bind]
    generalize run answer (onLexerCall cfg f p) history = x at hsafe hnext
    by_cases h : x.2.1 = 0
    · obtain ⟨c', hr', hc', hb'⟩ := hnext h
      obtain ⟨hrest, hdebug⟩ := ih horder hr' hc' hb' (history ++ x.1)
      simp only [if_neg (not_not_intro h), hdebug, implies_true, and_true]
      have hlast : RefusedOpening (x.1 ++ (run answer (drive cfg x.2.2 calls) (history ++ x.1)).1,
          (run answer (drive cfg x.2.2 calls) (history ++ x.1)).2) ↔
            RefusedOpening (run answer (drive cfg x.2.2 calls) (history ++ x.1)) :=
        refusedOpening_append (FailsFast.run_calls_ne_nil (drive_relaysCode cfg x.2.2 calls))
      refine ⟨hrest.harmless, fun position hmem => ?_, fun hx => hrest.intact (mt hlast.mpr hx),
        fun hx => hrest.pushed (hlast.mp hx)⟩
      rcases List.mem_append.mp hmem with hmem | hmem
      · exact hsafe.quiet position hmem
      · exact hrest.quiet position hmem
    · simp only [if_pos h, run, List.append_nil, implies_true, and_true]
      exact hsafe

end Runs

/-- A run of the parser with its stack of sixteen bytes, in a debug or a release build. -/
def session (answer : List (UserCall δ) → UserCall δ → ℤ) (debug : Bool)
    (calls : List (LexerCall δ)) : List (UserCall δ) × ℤ × Parser :=
  run answer (drive { Config.default with debug := debug } (.zero .default) calls) []

/-- The invariant holds in every state, unless the application refused an opening bracket: then the
bracket is on the stack already, and the invariant holds without it. -/
theorem parser_invariant
    (hE : ∀ history code position, answer history (.error code position) ≠ 0) (debug : Bool)
    {calls : List (LexerCall δ)} (horder : InOrder false calls) :
    (¬RefusedOpening (session answer debug calls) →
      StackInvariant (session answer debug calls).2.2) ∧
    (RefusedOpening (session answer debug calls) →
      StackInvariant (stackPop (session answer debug calls).2.2)) ∧
    (session answer debug calls).2.2.stackSize ≤ 128 ∧
    (session answer debug calls).2.2.state ≠ .invalid ∧
    (session answer debug calls).2.2.broken = false ∧
    (∀ position, .error .internalError position ∉ (session answer debug calls).1) ∧
    session answer debug calls = session answer false calls := by
  obtain ⟨hsafe, hdebug⟩ := drive_safe answer hE horder
    (represents_zero .default rfl) rfl rfl nofun []
  have hsame : session answer debug calls = run answer (drive .default (.zero .default) calls) [] :=
    hdebug debug
  have hfalse : session answer false calls = session answer debug calls := (hdebug false).trans hsame.symm
  have hinvariant {q : Parser} (h : Intact .default q) : StackInvariant q := by
    obtain ⟨c, hr, hc⟩ := h
    exact stackInvariant_of_represents rfl hr hc
  rw [hfalse, hsame]
  exact ⟨fun h => hinvariant (hsafe.intact h), fun h => hinvariant (hsafe.pushed h),
    hsafe.harmless.size, hsafe.harmless.valid, hsafe.harmless.sound, hsafe.quiet, rfl⟩

def openKey : List (LexerCall ℚ) :=
  [.token .openBracket .null, .token .openCurlyBracket .null, .tokencBegin .null]

def refuseArrays (_ : List (UserCall ℚ)) (u : UserCall ℚ) : ℤ :=
  if u.isError ∨ u = .arrayBegin then 1 else 0

theorem parser_invariant_openKey :
    StackInvariant (session (accept UserCall.isError) true openKey).2.2 ∧
      StackInvariant (stackPop (session refuseArrays true openKey).2.2) ∧
      session (accept UserCall.isError) true openKey =
        session (accept UserCall.isError) false openKey := by
  have horder : InOrder false openKey := ⟨true, rfl⟩
  have h := parser_invariant
    (fun history _ _ => (accepting_accept UserCall.isError).refuses history _ rfl) true horder
  have hE (history : List (UserCall ℚ)) (code : ErrorCode) (position : Pointer) :
      refuseArrays history (.error code position) ≠ 0 := by simp [refuseArrays, UserCall.isError]
  have hrefused := parser_invariant hE true horder
  exact ⟨h.1 fun hx => hx.1 (by decide), hrefused.2.1 ⟨by decide, .arrayBegin, by decide, rfl⟩,
    h.2.2.2.2.2.2⟩

/-- The calls for `{"" ""`. -/
def keyBehindKey : List (LexerCall ℚ) :=
  [.token .openCurlyBracket .null, .tokencBegin .null, .tokencEnd .null, .tokencBegin .null,
    .tokencEnd .null]

/-- An application that answers zero to the error enters the state that is never entered otherwise,
and one that refuses an array leaves the bracket on the stack of a parser that expects its first
value. -/
theorem parser_invariant_broken :
    (InOrder false keyBehindKey ∧ (session (fun _ _ => 0) false keyBehindKey).2.1 = 0 ∧
      (session (fun _ _ => 0) false keyBehindKey).2.2.state = .invalid) ∧
    InOrder false openKey ∧ ¬StackInvariant (session refuseArrays false openKey).2.2 := by
  have hleft : (session refuseArrays false openKey).2.2.state = .expectValue ∧
      (session refuseArrays false openKey).2.2.stackSize = 1 := by decide
  refine ⟨⟨⟨false, rfl⟩, by decide, by decide⟩, ⟨true, rfl⟩, fun h => ?_⟩
  exact absurd (hleft.2.symm.trans (h.outside (.inl hleft.1))) (by decide)

end Embedjson
