import Embedjson.Lexer.ReturnCodes
import Embedjson.Lexer.Simulation

namespace Embedjson

open Foundations Foundations.Program

variable {δ : Type}

def LexerCall.forget : LexerCall δ → LexerCall δ
  | .token tok _ => .token tok .null
  | .tokenc _ bytes => .tokenc .null bytes
  | .tokeni v _ => .tokeni v .null
  | .tokenf v _ => .tokenf v .null
  | .tokencBegin _ => .tokencBegin .null
  | .tokencEnd _ => .tokencEnd .null
  | .tokenbnBegin _ v => .tokenbnBegin .null v
  | .tokenbn _ bytes => .tokenbn .null bytes
  | .tokenbnEnd _ => .tokenbnEnd .null
  | .errorEx code _ => .errorEx code .null

/-- A call without its position and with a chunk for every byte. -/
def LexerCall.pieces : LexerCall δ → List (LexerCall δ)
  | .tokenc _ bytes => bytes.map charCall
  | .tokenbn _ bytes => bytes.map bignumCall
  | f => [f.forget]

lemma map_forget_cut (base : ℤ) (f : LexerCall δ) :
    (f.cut base).map LexerCall.forget = f.pieces := by
  cases f with
  | tokenc | tokenbn => exact List.map_map
  | _ => rfl

lemma map_forget_cutAll (base : ℤ) (l : List (LexerCall δ)) :
    (cutAll base l).map LexerCall.forget = l.flatMap LexerCall.pieces := by
  induction l with
  | nil => rfl
  | cons f l ih => rw [cutAll_cons, List.map_append, map_forget_cut, ih, List.flatMap_cons]

def Tells (x : List (LexerCall δ) × Option (ℤ × Lexer))
    (y : List (LexerCall δ) × Except ErrorCode Scan) : Prop :=
  match y.2 with
  | .ok s => x.2 = some (0, s.lex) ∧ x.1.flatMap LexerCall.pieces = y.1.map LexerCall.forget ∧
      ∀ f ∈ x.1, f.Nonempty
  | .error code => x.2 = none ∧ ∃ l position, x.1 = l ++ [.errorEx code position]

variable [DoubleArith δ] {cfg : Config}

/-- The pushes of a user of the lexer, who stops at the first non-zero result. -/
def lexerPushAll (cfg : Config) : Lexer → List (List UInt8) → Program (LexerCall δ) (ℤ × Lexer)
  | lexer, [] => .done (0, lexer)
  | lexer, chunk :: chunks =>
    (embedjsonLexerPush cfg chunk lexer).bind fun a =>
      if a.1 ≠ 0 then .done a else lexerPushAll cfg a.2 chunks

variable (cfg) in
theorem lexerPushAll_failsFast (lexer : Lexer) (chunks : List (List UInt8)) :
    FailsFast Prod.fst (lexerPushAll cfg lexer chunks : Program (LexerCall δ) _) := by
  induction chunks generalizing lexer with
  | nil => rfl
  | cons chunk chunks ih =>
    refine (embedjsonLexerPush_failsFast lexer).bind (fun a ha => ?_) fun a ha => ⟨a, if_pos ha, rfl⟩
    rw [if_neg (not_not_intro ha)]
    exact ih a.2

variable (cfg) in
lemma embedjsonLexerPush_tells (lexer : Lexer) (base : ℤ) (chunk : List UInt8) :
    Tells (observe LexerCall.isError (embedjsonLexerPush (δ := δ) cfg chunk lexer))
      ((scanner cfg).run ⟨lexer, base⟩ chunk) := by
  have h := embedjsonLexerPush_agrees (δ := δ) cfg lexer base chunk
  generalize observe LexerCall.isError (embedjsonLexerPush (δ := δ) cfg chunk lexer) = x at h
  rcases hs : (scanner (δ := δ) cfg).run ⟨lexer, base⟩ chunk with ⟨calls, code | s⟩
  · rw [hs] at h
    obtain ⟨-, hn, l, q, i, hl, -⟩ := h
    exact ⟨hn, l, .buffer i, hl⟩
  · rw [hs] at h
    obtain ⟨hne, hn, -, rfl⟩ := h
    exact ⟨hn, (map_forget_cutAll base x.1).symm, hne⟩

variable (cfg) in
theorem lexerPushAll_tells (lexer : Lexer) (base : ℤ) (chunks : List (List UInt8)) :
    Tells (observe LexerCall.isError (lexerPushAll (δ := δ) cfg lexer chunks))
      ((scanner cfg).run ⟨lexer, base⟩ chunks.flatten) := by
  induction chunks generalizing lexer base with
  | nil => exact ⟨rfl, rfl, by simp [lexerPushAll]⟩
  | cons chunk chunks ih =>
    have h := embedjsonLexerPush_tells (δ := δ) cfg lexer base chunk
    rw [lexerPushAll, observe_bind, List.flatten_cons]
    generalize observe LexerCall.isError (embedjsonLexerPush (δ := δ) cfg chunk lexer) = x at h
    obtain ⟨l, r⟩ := x
    rcases hs : (scanner (δ := δ) cfg).run ⟨lexer, base⟩ chunk with ⟨os, code | s⟩
    · rw [hs] at h
      obtain ⟨rfl, hl⟩ := h
      rw [Transducer.run_append_error _ hs]
      exact ⟨rfl, hl⟩
    · rw [hs] at h
      obtain ⟨rfl, hv, hne⟩ := h
      have h' : Tells (observe LexerCall.isError (lexerPushAll cfg s.lex chunks))
          ((scanner (δ := δ) cfg).run s chunks.flatten) := ih s.lex s.index
      rw [Transducer.run_append_ok _ hs, followedBy_some, if_neg (not_not_intro rfl)]
      generalize observe LexerCall.isError (lexerPushAll (δ := δ) cfg s.lex chunks) = y at h'
      obtain ⟨m, r⟩ := y
      rcases hr : (scanner (δ := δ) cfg).run s chunks.flatten with ⟨ps, code | u⟩
      · rw [hr] at h'
        obtain ⟨rfl, m, position, rfl⟩ := h'
        exact ⟨rfl, l ++ m, position, (List.append_assoc _ _ _).symm⟩
      · rw [hr] at h'
        obtain ⟨rfl, hv', hne'⟩ := h'
        refine ⟨rfl, ?_, by simpa [or_imp, forall_and] using ⟨hne, hne'⟩⟩
        rw [List.flatMap_append, List.map_append, show l.flatMap LexerCall.pieces = _ from hv,
          show m.flatMap LexerCall.pieces = _ from hv']

def lexerCalls (cfg : Config) (lexer : Lexer) (chunks : List (List UInt8)) : List (LexerCall δ) :=
  (observe LexerCall.isError (lexerPushAll cfg lexer chunks)).1

lemma lexerCalls_cons {lexer lexer' : Lexer} {chunk : List UInt8} {chunks : List (List UInt8)}
    {l : List (LexerCall δ)}
    (h : observe LexerCall.isError (embedjsonLexerPush cfg chunk lexer) = (l, some (0, lexer'))) :
    lexerCalls cfg lexer (chunk :: chunks) = l ++ lexerCalls cfg lexer' chunks := by
  rw [lexerCalls, lexerPushAll, observe_bind, h, followedBy_some, if_neg (not_not_intro rfl)]
  rfl

lemma scanner_reached {lexer lexer' : Lexer} {chunks : List (List UInt8)} {l : List (LexerCall δ)}
    {code : ℤ} (base : ℤ)
    (h : observe LexerCall.isError (lexerPushAll cfg lexer chunks) = (l, some (code, lexer'))) :
    ∃ calls index, (scanner (δ := δ) cfg).run ⟨lexer, base⟩ chunks.flatten =
      (calls, .ok ⟨lexer', index⟩) := by
  have htells := lexerPushAll_tells (δ := δ) cfg lexer base chunks
  rw [h] at htells
  rcases hrun : (scanner (δ := δ) cfg).run ⟨lexer, base⟩ chunks.flatten with
    ⟨calls, code | ⟨lex, index⟩⟩
  · rw [hrun] at htells
    cases htells.1
  · rw [hrun] at htells
    cases htells.1
    exact ⟨calls, index, rfl⟩

/-- A zeroed lexer has read the input up to `rest` and is in the state `lexer`. -/
def Meets (δ : Type) [DoubleArith δ] (cfg : Config) (input : List UInt8) (lexer : Lexer)
    (rest : List UInt8) : Prop :=
  ∃ (chunks : List (List UInt8)) (l : List (LexerCall δ)), chunks.flatten ++ rest = input ∧
    observe LexerCall.isError (lexerPushAll cfg .zero chunks) = (l, some (0, lexer))

lemma meets_iff {input rest : List UInt8} {lexer : Lexer} :
    Meets δ cfg input lexer rest ↔ ∃ start calls index, start ++ rest = input ∧
      (scanner (δ := δ) cfg).run ⟨.zero, 0⟩ start = (calls, .ok ⟨lexer, index⟩) := by
  constructor
  · rintro ⟨chunks, l, rfl, h⟩
    obtain ⟨calls, index, hrun⟩ := scanner_reached 0 h
    exact ⟨chunks.flatten, calls, index, rfl, hrun⟩
  · rintro ⟨start, calls, index, rfl, hrun⟩
    have htells := lexerPushAll_tells (δ := δ) cfg .zero 0 [start]
    rw [List.flatten_singleton, hrun] at htells
    exact ⟨[start], _, by rw [List.flatten_singleton], Prod.ext rfl htells.1⟩

/-- The calls of some pushes up to the first failure, byte by byte and with the positions that the
bytes have in the whole input. -/
def trace (cfg : Config) : Lexer → ℤ → List (List UInt8) → List (LexerCall δ)
  | _, _, [] => []
  | lexer, base, chunk :: chunks =>
    let x := observe LexerCall.isError (embedjsonLexerPush cfg chunk lexer)
    cutAll base x.1 ++
      match x.2 with
      | some a => if a.1 ≠ 0 then [] else trace cfg a.2 (base + chunk.length) chunks
      | none => []

/-- What a trace has of the scanner's calls: all up to the raw bytes in front of an error, and then the
error. -/
structure Traces (l : List (LexerCall δ)) (y : List (LexerCall δ) × Except ErrorCode Scan) : Prop where
  ok : ∀ s, y.2 = .ok s → l = y.1
  error : ∀ code, y.2 = .error code → ∃ calls pending position,
    l = calls ++ [.errorEx code position] ∧ calls ++ pending = y.1 ∧ ∀ f ∈ pending, f.isChunk

variable (cfg) in
theorem trace_scanner (lexer : Lexer) (base : ℤ) (chunks : List (List UInt8)) :
    Traces (trace (δ := δ) cfg lexer base chunks)
      ((scanner cfg).run ⟨lexer, base⟩ chunks.flatten) := by
  induction chunks generalizing lexer base with
  | nil => exact ⟨fun _ _ => rfl, nofun⟩
  | cons chunk chunks ih =>
    have h := embedjsonLexerPush_agrees (δ := δ) cfg lexer base chunk
    rw [trace, List.flatten_cons]
    generalize observe LexerCall.isError (embedjsonLexerPush (δ := δ) cfg chunk lexer) = x at h ⊢
    obtain ⟨l, r⟩ := x
    rcases hs : (scanner (δ := δ) cfg).run ⟨lexer, base⟩ chunk with ⟨os, code | s⟩
    · rw [hs] at h
      obtain ⟨-, rfl, m, q, i, rfl, -, -, rfl, hq⟩ := h
      rw [Transducer.run_append_error _ hs]
      refine ⟨nofun, fun code' hcode => ?_⟩
      cases hcode
      refine ⟨cutAll base m, q, (Pointer.buffer i).shift base, ?_, rfl, hq⟩
      simp [cutAll_append, LexerCall.cut]
    · rw [hs] at h
      obtain ⟨lex, index⟩ := s
      obtain ⟨-, rfl, hindex, rfl⟩ := h
      obtain rfl : index = base + chunk.length := hindex
      have hrest := ih lex (base + chunk.length)
      rw [Transducer.run_append_ok _ hs]
      refine ⟨fun s hs => ?_, fun code hcode => ?_⟩
      · have heq := hrest.ok s hs
        exact congrArg (cutAll base l ++ ·) heq
      · obtain ⟨calls, pending, position, heq, hcalls, hpending⟩ := hrest.error code hcode
        refine ⟨cutAll base l ++ calls, pending, position, ?_, ?_, hpending⟩
        · rw [List.append_assoc, ← heq]
          rfl
        · rw [List.append_assoc, hcalls]

lemma trace_call {lexer : Lexer} {base : ℤ} {chunks : List (List UInt8)}
    {l after : List (LexerCall δ)} {f : LexerCall δ} (hf : f.isError = false)
    (h : trace cfg lexer base chunks = l ++ f :: after) :
    ∃ after', ((scanner (δ := δ) cfg).run ⟨lexer, base⟩ chunks.flatten).1 = l ++ f :: after' := by
  have htraces := trace_scanner (δ := δ) cfg lexer base chunks
  rw [h] at htraces
  rcases hr : ((scanner (δ := δ) cfg).run ⟨lexer, base⟩ chunks.flatten).2 with code | s
  · obtain ⟨calls, pending, position, hcalls, heq, -⟩ := htraces.error code hr
    rcases List.eq_nil_or_concat after with rfl | ⟨after, g, rfl⟩
    · have hlast := (List.append_inj' hcalls rfl).2
      cases hlast
      cases hf
    · rw [List.concat_eq_append, ← List.cons_append, ← List.append_assoc] at hcalls
      obtain ⟨rfl, -⟩ := List.append_inj' hcalls rfl
      exact ⟨after ++ pending, by rw [← heq, List.append_assoc, List.cons_append]⟩
  · exact ⟨after, (htraces.ok s hr).symm⟩

lemma mem_trace_iff {lexer : Lexer} {base : ℤ} {chunks : List (List UInt8)} {f : LexerCall δ}
    (hchunk : f.isChunk = false) (hf : f.isError = false) :
    f ∈ trace cfg lexer base chunks ↔
      f ∈ ((scanner (δ := δ) cfg).run ⟨lexer, base⟩ chunks.flatten).1 := by
  have htraces := trace_scanner (δ := δ) cfg lexer base chunks
  rcases hr : ((scanner (δ := δ) cfg).run ⟨lexer, base⟩ chunks.flatten).2 with code | s
  · obtain ⟨calls, pending, position, heq, hcalls, hpending⟩ := htraces.error code hr
    have hlast : f ≠ .errorEx code position := by
      rintro rfl
      cases hf
    have hpend : f ∉ pending := by
      intro hmem
      rw [hpending f hmem] at hchunk
      cases hchunk
    simp [heq, ← hcalls, hlast, hpend]
  · rw [htraces.ok s hr]

lemma trace_begins {lexer : Lexer} {base : ℤ} {chunks : List (List UInt8)}
    {l m : List (LexerCall δ)} {f : LexerCall δ} (hf : f.isChunk = false)
    (h : ((scanner (δ := δ) cfg).run ⟨lexer, base⟩ chunks.flatten).1 = l ++ f :: m) :
    ∃ more, trace cfg lexer base chunks = l ++ f :: more := by
  have htraces := trace_scanner (δ := δ) cfg lexer base chunks
  rcases hr : ((scanner (δ := δ) cfg).run ⟨lexer, base⟩ chunks.flatten).2 with code | s
  · obtain ⟨calls, pending, position, heq, hcalls, hpending⟩ := htraces.error code hr
    rw [h] at hcalls
    have hnot : f ∉ pending := by
      intro hmem
      rw [hpending f hmem] at hf
      cases hf
    rcases List.append_eq_append_iff.mp hcalls with ⟨as, rfl, hend⟩ | ⟨bs, rfl, hend⟩
    · exact absurd (by simp [hend]) hnot
    · cases bs with
      | nil => exact absurd (by simp [← show _ = pending from hend]) hnot
      | cons g bs =>
        obtain ⟨rfl, -⟩ := List.cons.inj hend
        exact ⟨bs ++ [.errorEx code position], by rw [heq]; simp⟩
  · exact ⟨m, (htraces.ok s hr).trans h⟩

end Embedjson
