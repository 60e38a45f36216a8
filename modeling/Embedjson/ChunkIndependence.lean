import Embedjson.Foundations.Joining
import Embedjson.Parser.Chunking

namespace Embedjson

open Foundations Foundations.Program

variable {δ : Type}

namespace LexerCall

def merge : LexerCall δ → LexerCall δ → Option (LexerCall δ)
  | tokenc p s, tokenc _ t => some (tokenc p (s ++ t))
  | tokenbn p s, tokenbn _ t => some (tokenbn p (s ++ t))
  | _, _ => none

def joining : Joining (LexerCall δ) where
  merge := merge
  assoc a b c e h := by
    cases a <;> cases b <;> simp only [merge, reduceCtorEq, Option.some.injEq] at h <;> subst h <;>
      cases c <;> simp [merge]

/-- The calls of a run without positions, with adjacent chunks in one piece. -/
def events (calls : List (LexerCall δ)) : List (LexerCall δ) := joining.join (calls.map forget)

def errorCode : LexerCall δ → Option ErrorCode
  | errorEx code _ => some code
  | _ => none

lemma events_eq {l : List (LexerCall δ)} (hl : ∀ f ∈ l, f.Nonempty) :
    events l = joining.join (l.flatMap pieces) := by
  have hp (f : LexerCall δ) : f.pieces = f.forget.pieces := by cases f <;> rfl
  have hcut (f : LexerCall δ) (hf : f.Nonempty) (m : List (LexerCall δ)) :
      joining.join (f.forget.pieces ++ m) = joining.join (f.forget :: m) := by
    cases f with
    | tokenc p bytes =>
      obtain ⟨b, bytes, rfl⟩ := List.exists_cons_of_ne_nil hf
      exact Joining.join_letters (tokenc .null) (fun _ _ => rfl) b bytes m
    | tokenbn p bytes =>
      obtain ⟨b, bytes, rfl⟩ := List.exists_cons_of_ne_nil hf
      exact Joining.join_letters (tokenbn .null) (fun _ _ => rfl) b bytes m
    | _ => rfl
  have hmap : l.flatMap pieces = (l.map forget).flatMap pieces := by
    rw [List.flatMap_map]
    exact congrArg (l.flatMap ·) (funext hp)
  rw [hmap, Joining.join_flatMap]
  · rfl
  · intro g hg
    obtain ⟨f, hf, rfl⟩ := List.mem_map.mp hg
    exact hcut f (hl f hf)

end LexerCall

namespace UserCall

def merge : UserCall δ → UserCall δ → Option (UserCall δ)
  | stringChunk s, stringChunk t => some (stringChunk (s ++ t))
  | bignumChunk s, bignumChunk t => some (bignumChunk (s ++ t))
  | _, _ => none

def joining : Joining (UserCall δ) where
  merge := merge
  assoc a b c e h := by
    cases a <;> cases b <;> simp only [merge, reduceCtorEq, Option.some.injEq] at h <;> subst h <;>
      cases c <;> simp [merge]

def events (calls : List (UserCall δ)) : List (UserCall δ) := joining.join (calls.map forget)

def errorCode : UserCall δ → Option ErrorCode
  | error code _ => some code
  | _ => none

lemma events_eq {l : List (UserCall δ)} (hl : ∀ f ∈ l, f.Nonempty) :
    events l = joining.join (view l) := by
  have hp (f : UserCall δ) : f.pieces = f.forget.pieces := by cases f <;> rfl
  have hcut (f : UserCall δ) (hf : f.Nonempty) (m : List (UserCall δ)) :
      joining.join (f.forget.pieces ++ m) = joining.join (f.forget :: m) := by
    cases f with
    | stringChunk bytes =>
      obtain ⟨b, bytes, rfl⟩ := List.exists_cons_of_ne_nil hf
      exact Joining.join_letters stringChunk (fun _ _ => rfl) b bytes m
    | bignumChunk bytes =>
      obtain ⟨b, bytes, rfl⟩ := List.exists_cons_of_ne_nil hf
      exact Joining.join_letters bignumChunk (fun _ _ => rfl) b bytes m
    | _ => rfl
  have hmap : view l = (l.map forget).flatMap pieces := by
    rw [List.flatMap_map]
    exact congrArg (l.flatMap ·) (funext hp)
  rw [hmap, Joining.join_flatMap]
  · rfl
  · intro g hg
    obtain ⟨f, hf, rfl⟩ := List.mem_map.mp hg
    exact hcut f (hl f hf)

end UserCall

/-- Two runs with the same result: both succeed in the same state after the same events, or both
fail after a report of the same error. -/
def SameOutcome {C S : Type} (events : List C → List C) (errorCode : C → Option ErrorCode)
    (x y : List C × ℤ × S) : Prop :=
  (x.2.1 = 0 ↔ y.2.1 = 0) ∧
    (x.2.1 = 0 → x.2.2 = y.2.2 ∧ events x.1 = events y.1) ∧
    (x.2.1 ≠ 0 → ∃ code, x.1.getLast?.bind errorCode = some code ∧
      y.1.getLast?.bind errorCode = some code)

variable [DoubleArith δ] {cfg : Config}

lemma SameOutcome.intro {C S : Type} {E : C → Bool} {events : List C → List C}
    {errorCode : C → Option ErrorCode} {answer : List C → C → ℤ} (hA : Accepting E answer)
    {m k : Program C (ℤ × S)} (hm : FailsFast Prod.fst m) (hk : FailsFast Prod.fst k)
    (history history' : List C)
    (h : (∃ s, (observe E m).2 = some (0, s) ∧ (observe E k).2 = some (0, s) ∧
        events (observe E m).1 = events (observe E k).1) ∨
      ((observe E m).2 = none ∧ (observe E k).2 = none ∧
        ∃ code, (observe E m).1.getLast?.bind errorCode = some code ∧
          (observe E k).1.getLast?.bind errorCode = some code)) :
    SameOutcome events errorCode (run answer m history) (run answer k history') := by
  obtain ⟨hm₁, hm₂, hm₃⟩ := hm.run_accepting hA history
  obtain ⟨hk₁, hk₂, hk₃⟩ := hk.run_accepting hA history'
  rcases h with ⟨s, hs, ht, he⟩ | ⟨hs, ht, he⟩
  · simp [SameOutcome, hm₁, hk₁, hm₂ _ hs, hk₂ _ ht, he]
  · simpa [SameOutcome, hm₁, hk₁, hm₃ hs, hk₃ ht] using he

theorem lexerPushAll_sameOutcome {answer : List (LexerCall δ) → LexerCall δ → ℤ}
    (hA : Accepting LexerCall.isError answer) (lexer : Lexer) (chunks : List (List UInt8)) :
    SameOutcome LexerCall.events LexerCall.errorCode
      (run answer (lexerPushAll cfg lexer chunks) [])
      (run answer (embedjsonLexerPush cfg chunks.flatten lexer) []) := by
  have hx := lexerPushAll_tells (δ := δ) cfg lexer 0 chunks
  have hy := embedjsonLexerPush_tells (δ := δ) cfg lexer 0 chunks.flatten
  refine .intro hA (lexerPushAll_failsFast cfg lexer chunks) (embedjsonLexerPush_failsFast lexer) [] [] ?_
  rcases hs : (scanner (δ := δ) cfg).run ⟨lexer, 0⟩ chunks.flatten with ⟨os, code | s⟩
  · rw [hs] at hx hy
    obtain ⟨hx, l, p, hl⟩ := hx
    obtain ⟨hy, m, q, hm⟩ := hy
    exact .inr ⟨hx, hy, code, by simp [hl, LexerCall.errorCode], by simp [hm, LexerCall.errorCode]⟩
  · rw [hs] at hx hy
    obtain ⟨hx, hv, hne⟩ := hx
    obtain ⟨hy, hv', hne'⟩ := hy
    exact .inl ⟨s.lex, hx, hy, by rw [LexerCall.events_eq hne, LexerCall.events_eq hne', hv, hv']⟩

theorem pushAll_sameOutcome (hdebug : cfg.debug = false)
    {answer : List (UserCall δ) → UserCall δ → ℤ} (hA : Accepting UserCall.isError answer)
    (p : Parser) (chunks : List (List UInt8)) :
    SameOutcome UserCall.events UserCall.errorCode (run answer (pushAll cfg p chunks) [])
      (run answer (embedjsonPush cfg p chunks.flatten) []) := by
  have hx := pushAll_reports (δ := δ) hdebug p p.lexer 0 chunks
  have hy := embedjsonPush_reports (δ := δ) hdebug p p.lexer 0 chunks.flatten
  refine .intro hA (pushAll_relaysCode p chunks) (embedjsonPush_relaysCode p chunks.flatten) [] [] ?_
  rcases hs : (embedjson (δ := δ) cfg).run (⟨p.lexer, 0⟩, p.setLexer p.lexer) chunks.flatten with
    ⟨os, code | ⟨s, q⟩⟩
  · rw [hs] at hx hy
    obtain ⟨hx, l, i, hl⟩ := hx
    obtain ⟨hy, m, j, hm⟩ := hy
    exact .inr ⟨hx, hy, code, by simp [hl, UserCall.errorCode], by simp [hm, UserCall.errorCode]⟩
  · rw [hs] at hx hy
    obtain ⟨t, hx, ht, hv, hne⟩ := hx
    obtain ⟨u, hy, hu, hv', hne'⟩ := hy
    have htu : t.setLexer s.lex = u.setLexer s.lex := by
      have h := congrArg (Parser.setLexer · s.lex) (ht.symm.trans hu)
      exact h
    exact .inl ⟨t.setLexer s.lex, hx, by rw [hy, htu],
      by rw [UserCall.events_eq hne, UserCall.events_eq hne', hv, hv']⟩

/-- Both for the parser and, with any build options, for the lexer alone. -/
theorem chunk_split_independence (hdebug : cfg.debug = false)
    {answer : List (UserCall δ) → UserCall δ → ℤ} (hA : Accepting UserCall.isError answer)
    {lexerAnswer : List (LexerCall δ) → LexerCall δ → ℤ}
    (hL : Accepting LexerCall.isError lexerAnswer) (lexerCfg : Config) (p : Parser) (lexer : Lexer)
    (chunks : List (List UInt8)) :
    SameOutcome UserCall.events UserCall.errorCode (run answer (pushAll cfg p chunks) [])
        (run answer (embedjsonPush cfg p chunks.flatten) []) ∧
      SameOutcome LexerCall.events LexerCall.errorCode
        (run lexerAnswer (lexerPushAll lexerCfg lexer chunks) [])
        (run lexerAnswer (embedjsonLexerPush lexerCfg chunks.flatten lexer) []) :=
  ⟨pushAll_sameOutcome hdebug hA p chunks, lexerPushAll_sameOutcome hL lexer chunks⟩

theorem chunk_split_independence_escape :
    SameOutcome UserCall.events UserCall.errorCode
        (run (accept UserCall.isError)
          (pushAll (δ := ℚ) Config.default (.zero .default) [[34, 97], [], [92], [110, 34]]) [])
        (run (accept UserCall.isError)
          (embedjsonPush Config.default (.zero .default) [34, 97, 92, 110, 34]) []) ∧
      SameOutcome LexerCall.events LexerCall.errorCode
        (run (accept LexerCall.isError)
          (lexerPushAll (δ := ℚ) { Config.default with bignum := true } .zero
            [[34, 97], [], [92], [110, 34]]) [])
        (run (accept LexerCall.isError)
          (embedjsonLexerPush { Config.default with bignum := true } [34, 97, 92, 110, 34] .zero)
          []) :=
  chunk_split_independence rfl (accepting_accept _) (accepting_accept _) _ _ _
    [[34, 97], [], [92], [110, 34]]

end Embedjson
