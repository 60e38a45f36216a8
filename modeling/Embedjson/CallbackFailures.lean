import Embedjson.Parser.Chunking

namespace Embedjson

open Foundations Foundations.Program

variable {δ : Type} [DoubleArith δ] {cfg : Config}

/-- How a call of the parser ends: at the first refused callback, or with zero behind callbacks that
were all granted. -/
def Propagates (answer : List (UserCall δ) → UserCall δ → ℤ) (history : List (UserCall δ))
    (p : Parser) (finished : Prop) (x : List (UserCall δ) × ℤ × Parser) : Prop :=
  (∃ granted u, x.1 = granted ++ [u] ∧ Granted answer history granted ∧
      answer (history ++ granted) u ≠ 0 ∧ x.2.1 = answer (history ++ granted) u ∧
      x.2.2.lexer = p.lexer) ∨
    Granted answer history x.1 ∧ (∀ u ∈ x.1, u.isError = false) ∧ x.2.1 = 0 ∧ finished

/-- The loop of the push comes to the end of the chunk, and the lexer that it leaves is stored. -/
def Processed (answer : List (UserCall δ) → UserCall δ → ℤ) (history : List (UserCall δ))
    (cfg : Config) (p : Parser) (chunk : List UInt8) (stored : Lexer) : Prop :=
  ∃ c q, (run answer (interpret (onLexerCall cfg)
      (loop cfg chunk (2 * chunk.length + 1) (start p.lexer)) p) history).2 = (some (.ok c), q) ∧
    c.data = chunk.length ∧ stored = c.lex

section Lexer

omit [DoubleArith δ] in
lemma flushEnd_keeps (chunk : List UInt8) (c : Cursor) :
    Returns (fun a => (∀ r, a = .error r → r ≠ 0) ∧ ∀ lex, a = .ok lex → lex = c.lex)
      (flushEnd (δ := δ) chunk c) := by
  have hdone : Returns (fun a => (∀ r, a = .error r → r ≠ 0) ∧ ∀ lex, a = .ok lex → lex = c.lex)
      (fallThrough c.lex : LexerProgram δ Lexer) := ⟨by simp, by simp⟩
  have hflush (f : Pointer → List UInt8 → LexerCall δ) :
      Returns (fun a => (∀ r, a = .error r → r ≠ 0) ∧ ∀ lex, a = .ok lex → lex = c.lex)
        (flush f chunk c (fallThrough c.lex)) := by
    rw [flush]
    split_ifs
    · intro r
      change Returns _ (if r ≠ 0 then _ else _)
      split_ifs with hr
      · exact ⟨by simpa using hr, by simp⟩
      · exact hdone
    · exact hdone
  rw [flushEnd]
  cases c.lex.state with
  | inString | inBigNumber => exact hflush _
  | _ => exact hdone

omit [DoubleArith δ] in
lemma afterLoop_stores (chunk : List UInt8) (lexer : Lexer) (c : Cursor) :
    Returns (fun a => a.1 = 0 → a.2 = c.lex) (afterLoop (δ := δ) chunk lexer (some (.ok c))) := by
  apply (flushEnd_keeps chunk c).bind
  rintro (r | lex) ⟨herror, hok⟩
  · exact fun h => absurd h (herror r rfl)
  · exact fun _ => hok lex rfl

variable (cfg) in
lemma embedjsonLexerPush_keeps (lexer : Lexer) (chunk : List UInt8) :
    Returns (fun a => a.1 ≠ 0 → a.2 = lexer) (embedjsonLexerPush (δ := δ) cfg chunk lexer) := by
  apply (returns_of_forall (P := fun _ => True) (fun _ => trivial) _).bind
  intro a _
  rcases a with _ | r | c
  · intro h
    exact absurd rfl h
  · intro _
    rfl
  · apply (returns_of_forall (P := fun _ => True) (fun _ => trivial) _).bind
    intro a _
    cases a with
    | error r => exact fun _ => rfl
    | ok lex => exact fun h => absurd rfl h

omit [DoubleArith δ] in
variable (cfg) in
lemma onLexerCall_keeps {f : LexerCall δ} (hf : f.Nonempty) (p : Parser) :
    Returns (fun a => a.2.lexer = p.lexer) (onLexerCall cfg f p) := by
  apply (onLexerCall_sameFlow cfg rfl hf p p.lexer).returns.mono
  rintro b ⟨a, rfl⟩
  rfl

variable (cfg) in
lemma embedjsonFinalize_keeps (p : Parser) :
    Returns (fun a => a.2.lexer = p.lexer) (embedjsonFinalize (δ := δ) cfg p) := by
  have hlexer : Returns (fun a : ℤ × Parser => a.2.lexer = p.lexer)
      (interpret (onLexerCall cfg) (embedjsonLexerFinalize (δ := δ) cfg p.lexer) p) := by
    rw [embedjsonLexerFinalize]
    cases p.lexer.state with
    | lookupToken => exact rfl
    | _ =>
      refine (onLexerCall_keeps cfg ?_ p).bind fun _ h => h
      trivial
  apply hlexer.bind
  intro a ha
  split_ifs
  · exact ha
  · exact fun _ => ha
  · exact ha

end Lexer

section Runs

variable {answer : List (UserCall δ) → UserCall δ → ℤ} {history : List (UserCall δ)}
  (hE : ∀ history code position, answer history (.error code position) ≠ 0)

include hE

omit [DoubleArith δ] in
lemma no_error_of_granted {calls : List (UserCall δ)} (h : Granted answer history calls) :
    ∀ u ∈ calls, u.isError = false := by
  induction calls generalizing history with
  | nil => simp
  | cons u calls ih =>
    refine List.forall_mem_cons.mpr ⟨?_, ih h.2⟩
    cases u with
    | error code position => exact absurd h.1 (hE history code position)
    | _ => rfl

lemma loop_ends (cfg : Config) (p : Parser) (chunk : List UInt8)
    (h : Granted answer history (run answer (interpret (onLexerCall cfg)
      (loop cfg chunk (2 * chunk.length + 1) (start p.lexer)) p) history).1) :
    ∃ c q, (run answer (interpret (onLexerCall cfg)
        (loop cfg chunk (2 * chunk.length + 1) (start p.lexer)) p) history).2 = (some (.ok c), q) ∧
      c.data = chunk.length := by
  have hfast : FailsFast (fun a => loopCode a.1) (interpret (onLexerCall cfg)
      (loop (δ := δ) cfg chunk (2 * chunk.length + 1) (start p.lexer)) p) :=
    (loop_failsFast _ _).interpret onLexerCall_relaysCode p
  have hzero := (hfast.run_cases answer history).resolve_left ?_
  · have hobs := hfast.observe_of_run hzero.2 (no_error_of_granted hE h)
    have hdel := start_delivers (δ := δ) cfg p.lexer 0 chunk
    rw [observe_interpret onLexerCall_relaysCode fun f hf => observe_onLexerCall_error cfg hf] at hobs
    generalize observe LexerCall.isError
      (loop (δ := δ) cfg chunk (2 * chunk.length + 1) (start p.lexer)) = x at hobs hdel
    obtain ⟨l, o⟩ := x
    dsimp only at hobs
    rcases hf : feed UserCall.isError (onLexerCall cfg) l p with ⟨us, _ | q⟩
    · rw [hf] at hobs
      cases congrArg Prod.snd hobs
    · rw [hf, followedBy_some, Prod.mk.injEq] at hobs
      obtain ⟨_, rfl, heq⟩ := Option.map_eq_some_iff.mp hobs.2
      rcases hrun : (scanner (δ := δ) cfg).run ⟨p.lexer, 0⟩ chunk with ⟨calls, code | s⟩
      · rw [hrun] at hdel
        cases hdel.2.1
      · rw [hrun] at hdel
        obtain ⟨-, c, hc, -, hdata, -⟩ := hdel
        cases hc
        exact ⟨c, q, heq.symm, hdata⟩
  · rintro ⟨granted, u, hcalls, -, hu, -⟩
    rw [hcalls, granted_append] at h
    exact hu h.2.1

omit hE in
lemma run_push (answer : List (UserCall δ) → UserCall δ → ℤ) (cfg : Config) (p : Parser)
    (chunk : List UInt8) (history : List (UserCall δ)) :
    run answer (embedjsonPush cfg p chunk) history =
      let x := run answer (interpret (onLexerCall cfg)
        (loop cfg chunk (2 * chunk.length + 1) (start p.lexer)) p) history
      let y := run answer (interpret (onLexerCall cfg) (afterLoop chunk p.lexer x.2.1) x.2.2)
        (history ++ x.1)
      (x.1 ++ y.1, y.2.1.1, { y.2.2 with lexer := y.2.1.2 }) := by
  rw [embedjsonPush, embedjsonLexerPush_eq, interpret_bind, bind_assoc, run_bind, run_bind]
  simp [run]

lemma embedjsonPush_propagates (cfg : Config) (p : Parser) (chunk : List UInt8) :
    Propagates answer history p
      (Processed answer history cfg p chunk (run answer (embedjsonPush cfg p chunk) history).2.2.lexer)
      (run answer (embedjsonPush cfg p chunk) history) := by
  have hkeeps : Returns (fun a => a.1 ≠ 0 → a.2.lexer = p.lexer)
      (embedjsonPush (δ := δ) cfg p chunk) :=
    ((embedjsonLexerPush_keeps cfg p.lexer chunk).interpret p).bind fun _ h => h
  rcases (embedjsonPush_relaysCode p chunk).run_cases answer history with
    ⟨granted, u, hcalls, hgranted, hu, hcode⟩ | ⟨hgranted, hcode⟩
  · refine .inl ⟨granted, u, hcalls, hgranted, hu, hcode, ?_⟩
    exact hkeeps.run answer history (by rwa [hcode])
  · refine .inr ⟨hgranted, no_error_of_granted hE hgranted, hcode, ?_⟩
    have hpush := run_push answer cfg p chunk history
    rw [hpush] at hgranted hcode ⊢
    dsimp only at hgranted hcode ⊢
    obtain ⟨c, q, hloop, hdata⟩ := loop_ends hE cfg p chunk (granted_append.mp hgranted).1
    refine ⟨c, q, hloop, hdata, ?_⟩
    rw [hloop] at hcode ⊢
    exact ((afterLoop_stores chunk p.lexer c).interpret q).run answer _ hcode

theorem callback_failures_propagate (cfg : Config) (p : Parser) (history : List (UserCall δ)) :
    (∀ chunk, Propagates answer history p
      (Processed answer history cfg p chunk (run answer (embedjsonPush cfg p chunk) history).2.2.lexer)
      (run answer (embedjsonPush cfg p chunk) history)) ∧
    Propagates answer history p True (run answer (embedjsonFinalize cfg p) history) := by
  refine ⟨embedjsonPush_propagates hE cfg p, ?_⟩
  rcases (embedjsonFinalize_relaysCode p).run_cases answer history with
    ⟨granted, u, hcalls, hgranted, hu, hcode⟩ | ⟨hgranted, hcode⟩
  · exact .inl ⟨granted, u, hcalls, hgranted, hu, hcode,
      (embedjsonFinalize_keeps cfg p).run answer history⟩
  · exact .inr ⟨hgranted, no_error_of_granted hE hgranted, hcode, trivial⟩

end Runs

def refuseArrayEnd (_ : List (UserCall ℚ)) : UserCall ℚ → ℤ
  | .arrayEnd => 7
  | .error _ _ => -1
  | _ => 0

theorem callback_failures_propagate_arrayEnd :
    (run refuseArrayEnd (embedjsonPush .default (.zero .default) [91, 49, 93]) []).2.1 = 7 ∧
      Propagates refuseArrayEnd [] (.zero .default)
        (Processed refuseArrayEnd [] .default (.zero .default) [91, 49, 93]
          (run refuseArrayEnd (embedjsonPush .default (.zero .default) [91, 49, 93]) []).2.2.lexer)
        (run refuseArrayEnd (embedjsonPush .default (.zero .default) [91, 49, 93]) []) :=
  ⟨by decide, (callback_failures_propagate (fun _ _ _ => by simp [refuseArrayEnd]) .default
    (.zero .default) []).1 [91, 49, 93]⟩

end Embedjson
