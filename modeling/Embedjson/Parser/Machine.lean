import Embedjson.Foundations.Transducer
import Embedjson.Parser.Frame

namespace Embedjson

open Foundations Foundations.Program

variable {δ : Type}

def lastError (calls : List (UserCall δ)) : ErrorCode :=
  match calls.getLast? with
  | some (.error code _) => code
  | _ => .ok

def parserStep (cfg : Config) (p : Parser) (call : LexerCall δ) :
    List (UserCall δ) × Except ErrorCode Parser :=
  match observe UserCall.isError (onLexerCall cfg call p) with
  | (calls, some a) => (calls, .ok a.2)
  | (calls, none) => (calls, .error (lastError calls))

def parserMachine (cfg : Config) : Transducer Parser (LexerCall δ) (UserCall δ) ErrorCode :=
  ⟨parserStep cfg⟩

section Runs

variable {cfg : Config} {p q : Parser} {lex : Lexer} {base : ℤ}

lemma parserStep_error {f : LexerCall δ} {os : List (UserCall δ)} {code : ErrorCode}
    (h : parserStep cfg p f = (os, .error code)) : ∃ l position, os = l ++ [.error code position] := by
  unfold parserStep at h
  rcases ho : observe UserCall.isError (onLexerCall cfg f p) with ⟨calls, _ | a⟩
  · obtain ⟨l, c, hl, hc, -⟩ := observe_none (congrArg Prod.snd ho)
    rw [ho] at hl h
    simp only [Prod.mk.injEq, Except.error.injEq] at h
    obtain ⟨rfl, rfl⟩ := h
    cases c with
    | error code position => exact ⟨l, position, by simp [show calls = _ from hl, lastError]⟩
    | _ => simp [UserCall.isError] at hc
  · simp [ho] at h

lemma parserMachine_run_error {l : List (LexerCall δ)} {os : List (UserCall δ)} {code : ErrorCode}
    (h : (parserMachine cfg).run p l = (os, .error code)) :
    ∃ m position, os = m ++ [.error code position] := by
  induction l generalizing p os with
  | nil => simp at h
  | cons f l ih =>
    rcases hs : (parserMachine cfg).step p f with ⟨ms, e | q⟩
    · rw [Transducer.run_cons_error _ hs] at h
      exact parserStep_error (hs.trans h)
    · rw [Transducer.run_cons_ok _ hs, Prod.mk.injEq] at h
      obtain ⟨m, position, hm⟩ := ih (Prod.ext rfl h.2)
      exact ⟨ms ++ m, position, by rw [← h.1, show Prod.fst _ = _ from hm, List.append_assoc]⟩

lemma parserMachine_run_ok {l : List (LexerCall δ)} {os : List (UserCall δ)}
    (h : (parserMachine cfg).run p l = (os, .ok q)) : ∀ u ∈ os, u.isError = false := by
  refine (parserMachine cfg).run_invariant (P := fun _ os _ => ∀ u ∈ os, u.isError = false)
    (by simp) (fun xs os t f us u hos hs => ?_) h
  have hs' : parserStep cfg t f = (us, .ok u) := hs
  unfold parserStep at hs'
  rcases ho : observe UserCall.isError (onLexerCall cfg f t) with ⟨calls, _ | a⟩
  · simp [ho] at hs'
  · have hcalls := observe_some (congrArg Prod.snd ho)
    rw [ho] at hs' hcalls
    cases hs'
    simpa [or_imp, forall_and] using ⟨hos, hcalls⟩

lemma feed_eq_run (l : List (LexerCall δ)) (p : Parser) :
    feed UserCall.isError (onLexerCall cfg) l p =
      (((parserMachine cfg).run p l).1, ((parserMachine cfg).run p l).2.toOption) := by
  induction l generalizing p with
  | nil => rfl
  | cons f l ih =>
    rw [feed_cons]
    rcases ho : observe UserCall.isError (onLexerCall cfg f p) with ⟨calls, _ | a⟩
    · have hs : (parserMachine cfg).step p f = (calls, .error (lastError calls)) := by
        simp [parserMachine, parserStep, ho]
      rw [Transducer.run_cons_error _ hs]
      rfl
    · have hs : (parserMachine cfg).step p f = (calls, .ok a.2) := by
        simp [parserMachine, parserStep, ho]
      rw [Transducer.run_cons_ok _ hs, followedBy_some, ih]

/-- The events of a list of calls, without positions and with a chunk for every byte. -/
def UserCall.pieces : UserCall δ → List (UserCall δ)
  | .stringChunk bytes => bytes.map fun b => .stringChunk [b]
  | .bignumChunk bytes => bytes.map fun b => .bignumChunk [b]
  | .error code _ => [.error code .null]
  | f => [f]

def view (calls : List (UserCall δ)) : List (UserCall δ) := calls.flatMap UserCall.pieces

@[simp] lemma view_nil : view ([] : List (UserCall δ)) = [] := rfl

@[simp] lemma view_append (l m : List (UserCall δ)) : view (l ++ m) = view l ++ view m := by
  simp [view]

lemma view_eq_of_alike {l m : List (UserCall δ)} (h : List.Forall₂ UserCall.Alike l m) :
    view l = view m := by
  have key (u : UserCall δ) : u.forget.pieces = u.pieces := by cases u <;> rfl
  induction h with
  | nil => rfl
  | cons hu _ ih =>
    simp only [view, List.flatMap_cons] at ih ⊢
    rw [ih, ← key, hu.1, key]

lemma nonempty_of_alike {l m : List (UserCall δ)} (h : List.Forall₂ UserCall.Alike l m) :
    ∀ u ∈ l, u.Nonempty := by
  induction h with
  | nil => simp
  | cons hu _ ih => simpa using ⟨hu.2, ih⟩

lemma lastError_eq_of_alike {l m : List (UserCall δ)} (h : List.Forall₂ UserCall.Alike l m) :
    lastError l = lastError m := by
  have key (u v : UserCall δ) (h : u.forget = v.forget) : lastError [u] = lastError [v] := by
    cases u <;> cases v <;> simp_all [UserCall.forget, lastError]
  induction h with
  | nil => rfl
  | cons hu hl ih =>
    cases hl with
    | nil => exact key _ _ hu.1
    | cons _ _ => simpa [lastError] using ih

variable (cfg) in
lemma parserStep_alike {f g : LexerCall δ} (h : f.forget = g.forget) (hf : f.Nonempty)
    (p : Parser) (lex : Lexer) :
    List.Forall₂ UserCall.Alike (parserStep cfg p f).1 (parserStep cfg (p.setLexer lex) g).1 ∧
      (parserStep cfg (p.setLexer lex) g).2 =
        (parserStep cfg p f).2.map fun t => t.setLexer lex := by
  obtain ⟨hl, hr⟩ :=
    (onLexerCall_sameFlow cfg h hf p lex).observe fun _ _ hu => hu.isError
  unfold parserStep
  generalize observe UserCall.isError (onLexerCall cfg f p) = x at hl hr
  generalize observe UserCall.isError (onLexerCall cfg g (p.setLexer lex)) = y at hl hr
  obtain ⟨l, a⟩ := x
  obtain ⟨m, b⟩ := y
  cases hr with
  | none => exact ⟨hl, by simp [Except.map, lastError_eq_of_alike hl]⟩
  | some hab => exact ⟨hl, by simp [Except.map, hab]⟩

end Runs

end Embedjson
