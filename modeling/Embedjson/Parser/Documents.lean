import Embedjson.Grammar.Soundness
import Embedjson.Parser.Invariant
import Embedjson.Parser.Machine

namespace Embedjson

open Foundations Foundations.Program

variable {δ : Type} {cfg : Config} {p : Parser} {c : Conf}

lemma observe_drive (p : Parser) (calls : List (LexerCall δ)) :
    observe UserCall.isError (drive cfg p calls) =
      (((parserMachine cfg).run p calls).1,
        ((parserMachine cfg).run p calls).2.toOption.map fun q => (0, q)) := by
  induction calls generalizing p with
  | nil => rfl
  | cons f calls ih =>
    rw [drive, observe_bind]
    rcases ho : observe UserCall.isError (onLexerCall cfg f p) with ⟨os, _ | a⟩
    · have hs : (parserMachine cfg).step p f = (os, .error (lastError os)) := by
        simp [parserMachine, parserStep, ho]
      rw [Transducer.run_cons_error _ hs]
      rfl
    · have hs : (parserMachine cfg).step p f = (os, .ok a.2) := by
        simp [parserMachine, parserStep, ho]
      have ha : a.1 = 0 := (onLexerCall_relaysCode f p).observe_eq ho
      rw [Transducer.run_cons_ok _ hs, followedBy_some, if_neg (not_not_intro ha), ih]

def Follows (cfg : Config) (r : List (UserCall δ) × Except ErrorCode Parser) :
    Option (List (UserCall δ) × Conf) → Prop
  | some (us, c) => ∃ p, r = (us, .ok p) ∧ Represents cfg p c ∧ c.Wf
  | none => ∃ u code, r = ([u], .error code) ∧ u.isError = true

section Steps

variable (hr : Represents cfg p c) (hc : c.Wf) (hstatic : cfg.dynamicStack = false)

include hr hc hstatic

lemma parserStep_follows {f : LexerCall δ} (hf : c.Expects f) :
    Follows cfg (parserStep cfg p f) (cfg.automaton.call c f) := by
  have himp := onLexerCall_implements hr hc hstatic hf
  cases hm : cfg.automaton.call c f with
  | none =>
    rw [hm] at himp
    obtain ⟨code, position, next, -, heq, -⟩ := himp
    exact ⟨.error code position, code, by
      rw [parserStep, heq, observe_call_of_mem rfl]
      rfl, rfl⟩
  | some a =>
    obtain ⟨us, c'⟩ := a
    rw [hm] at himp
    obtain ⟨p', hr', hsome⟩ := himp.observe_some
    exact ⟨p', by rw [parserStep, hsome], hr', Automaton.call_wf (.inl rfl) hc hm⟩

lemma run_chunks_follows {calls : List (LexerCall δ)} {text : Text}
    (hcalls : calls.map LexerCall.forget = text.map (.tokenc .null)) :
    Follows cfg ((parserMachine cfg).run p calls) (some (text.map .stringChunk, c)) := by
  induction text generalizing calls p with
  | nil =>
    obtain rfl : calls = [] := by simpa using hcalls
    exact ⟨p, rfl, hr, hc⟩
  | cons bytes text ih =>
    obtain ⟨f, rest, rfl, hf, hrest⟩ := List.map_eq_cons_iff.mp hcalls
    cases f with
    | tokenc data bytes' =>
      cases hf
      obtain ⟨p', hs, hr', hc'⟩ := parserStep_follows hr hc hstatic (f := .tokenc data bytes) trivial
      obtain ⟨p'', hs', hr'', hc''⟩ := ih hr' hrest
      exact ⟨p'', by rw [Transducer.run_cons_ok _ hs, hs']; rfl, hr'', hc''⟩
    | _ => cases hf

lemma run_string_follows {calls : List (LexerCall δ)} {text : Text}
    (hcalls : calls.map LexerCall.forget = (Lexeme.string text : Lexeme δ).calls) :
    match (cfg.automaton.lexeme c (.string text : Lexeme δ) : Automaton.Move δ) with
    | some (us, c') => Follows cfg ((parserMachine cfg).run p calls) (some (us, c'))
    | none => ∃ os code, (parserMachine cfg).run p calls = (os, .error code) := by
  obtain ⟨first, rest, rfl, hfirst, hrest⟩ := List.map_eq_cons_iff.mp hcalls
  obtain ⟨mid, last, rfl, hmid, hlast⟩ := List.map_eq_append_iff.mp hrest
  obtain ⟨final, more, rfl, hfinal, hmore⟩ := List.map_eq_cons_iff.mp hlast
  obtain rfl : more = [] := by simpa using hmore
  cases first <;> cases hfirst
  rename_i first
  cases final <;> cases hfinal
  rename_i final
  have hbegin := parserStep_follows hr hc hstatic (f := (.tokencBegin first : LexerCall δ)) trivial
  rw [Automaton.call] at hbegin
  rw [Automaton.lexeme]
  cases hs : afterString c.state with
  | none =>
    rw [hs] at hbegin
    obtain ⟨u, code, hstep, -⟩ := hbegin
    exact ⟨[u], code, Transducer.run_cons_error _ hstep _⟩
  | some s =>
    rw [hs] at hbegin
    obtain ⟨p₁, hstep₁, hr₁, hc₁⟩ := hbegin
    obtain ⟨p₂, hrun, hr₂, hc₂⟩ := run_chunks_follows hr₁ hc₁ hstatic hmid
    have hend := parserStep_follows hr₂ hc₂ hstatic (f := (.tokencEnd final : LexerCall δ))
      (by simp [Conf.Expects, hs])
    rw [Automaton.call, hs] at hend
    obtain ⟨p₃, hstep₃, hr₃, hc₃⟩ := hend
    refine ⟨p₃, ?_, hr₃, hc₃⟩
    rw [Transducer.run_cons_ok _ hstep₁, Transducer.run_append_ok _ hrun, Transducer.run_singleton]
    simp [show (parserMachine cfg).step p₂ (.tokencEnd final : LexerCall δ) = _ from hstep₃,
      Json.textCalls]

lemma run_lexeme_follows {calls : List (LexerCall δ)} {x : Lexeme δ}
    (hcalls : calls.map LexerCall.forget = x.calls) :
    match cfg.automaton.lexeme c x with
    | some (us, c') => Follows cfg ((parserMachine cfg).run p calls) (some (us, c'))
    | none => ∃ os code, (parserMachine cfg).run p calls = (os, .error code) := by
  have hsingle (f : LexerCall δ) (hf : c.Expects f) :
      match cfg.automaton.call c f with
      | some (us, c') => Follows cfg ((parserMachine cfg).run p [f]) (some (us, c'))
      | none => ∃ os code, (parserMachine cfg).run p [f] = (os, .error code) := by
    have h := parserStep_follows hr hc hstatic hf
    rw [Transducer.run_singleton]
    cases hm : cfg.automaton.call c f with
    | none =>
      rw [hm] at h
      obtain ⟨u, code, hstep, -⟩ := h
      exact ⟨[u], code, hstep⟩
    | some a =>
      rw [hm] at h
      exact h
  have hone {g : LexerCall δ} (h : calls.map LexerCall.forget = [g]) :
      ∃ f, calls = [f] ∧ f.forget = g := by
    obtain ⟨f, rest, rfl, hf, hrest⟩ := List.map_eq_cons_iff.mp h
    obtain rfl : rest = [] := by simpa using hrest
    exact ⟨f, rfl, hf⟩
  cases x with
  | string text => exact run_string_follows hr hc hstatic hcalls
  | tok t =>
    obtain ⟨f, rfl, hf⟩ := hone hcalls
    cases f <;> cases hf
    exact hsingle (.token t _) trivial
  | int v =>
    obtain ⟨f, rfl, hf⟩ := hone hcalls
    cases f <;> cases hf
    exact hsingle (.tokeni v _) trivial
  | double v =>
    obtain ⟨f, rfl, hf⟩ := hone hcalls
    cases f <;> cases hf
    exact hsingle (.tokenf v _) trivial

variable (cfg) in
theorem run_lexemes_follows {calls : List (LexerCall δ)} {ts : List (Lexeme δ)}
    (hcalls : calls.map LexerCall.forget = ts.flatMap Lexeme.calls) :
    match (cfg.automaton.machine.run c ts).2 with
    | .ok c' => ∃ p', (parserMachine cfg).run p calls =
        ((cfg.automaton.machine.run c ts).1, .ok p') ∧ Represents cfg p' c' ∧ c'.Wf
    | .error _ => ∃ os code, (parserMachine cfg).run p calls = (os, .error code) := by
  induction ts generalizing calls p c with
  | nil =>
    obtain rfl : calls = [] := by simpa using hcalls
    exact ⟨p, rfl, hr, hc⟩
  | cons x ts ih =>
    obtain ⟨first, rest, rfl, hfirst, hrest⟩ := List.map_eq_append_iff.mp hcalls
    have hx := run_lexeme_follows hr hc hstatic hfirst
    cases hm : cfg.automaton.lexeme c x with
    | none =>
      rw [hm] at hx
      obtain ⟨os, code, h⟩ := hx
      rw [Transducer.run_cons_error _ (Automaton.machine_step_error hm)]
      exact ⟨os, code, Transducer.run_append_error _ h rest⟩
    | some a =>
      obtain ⟨us, c'⟩ := a
      rw [hm] at hx
      obtain ⟨p', hrun, hr', hc'⟩ := hx
      have hrec := ih hr' hc' hrest
      rw [Transducer.run_cons_ok _ (Automaton.machine_step_ok.mpr hm),
        Transducer.run_append_ok _ hrun]
      rcases hend : (cfg.automaton.machine.run c' ts) with ⟨vs, e | c''⟩
      · rw [hend] at hrec
        obtain ⟨os, code, h⟩ := hrec
        exact ⟨us ++ os, code, by rw [h]⟩
      · rw [hend] at hrec
        obtain ⟨p'', h, hr'', hc''⟩ := hrec
        exact ⟨p'', by rw [h], hr'', hc''⟩

end Steps

end Embedjson
