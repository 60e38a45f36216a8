import Embedjson.Lexer.Protocol

namespace Embedjson

open Foundations Foundations.Program

variable {δ : Type}

inductive TokenCalls : List (LexerCall δ) → Prop where
  | token (tok : Tok) (position : Pointer) : TokenCalls [.token tok position]
  | tokeni (value : ℤ) (position : Pointer) : TokenCalls [.tokeni value position]
  | tokenf (value : δ) (position : Pointer) : TokenCalls [.tokenf value position]
  | string (first last : Pointer) (chunks : List (Pointer × List UInt8)) :
    TokenCalls (.tokencBegin first :: chunks.map (fun x => .tokenc x.1 x.2) ++ [.tokencEnd last])
  | bignum (first last : Pointer) (value : ℤ) (chunks : List (Pointer × List UInt8)) :
    TokenCalls
      (.tokenbnBegin first value :: chunks.map (fun x => .tokenbn x.1 x.2) ++ [.tokenbnEnd last])

/-- Whole tokens, the last of which may be cut short. -/
def InGroups (calls : List (LexerCall δ)) : Prop :=
  ∃ groups : List (List (LexerCall δ)), (∀ x ∈ groups, TokenCalls x) ∧ calls <+: groups.flatten

/-- The raw chunks among the calls of a push are parts of its buffer, one behind the other. -/
structure RawParts (chunk : List UInt8) (calls : List (LexerCall δ)) : Prop where
  inside : ∀ f ∈ calls, ∀ data bytes, f.raw = some (data, bytes) →
    ∃ i : ℕ, data = .buffer i ∧ i + bytes.length ≤ chunk.length ∧
      bytes = (chunk.drop i).take bytes.length
  ordered : (calls.filterMap LexerCall.raw).Pairwise fun x y =>
    ∃ i j : ℕ, x.1 = .buffer i ∧ y.1 = .buffer j ∧ i + x.2.length ≤ j

section Groups

def Begun : CallGroup → List (LexerCall δ) → Prop
  | .outside, calls => calls = []
  | .string, calls => ∃ first, ∃ chunks : List (Pointer × List UInt8),
      calls = .tokencBegin first :: chunks.map fun x => .tokenc x.1 x.2
  | .bignum, calls => ∃ first value, ∃ chunks : List (Pointer × List UInt8),
      calls = .tokenbnBegin first value :: chunks.map fun x => .tokenbn x.1 x.2

lemma begun_prefix {g : CallGroup} {calls : List (LexerCall δ)} (h : Begun g calls) :
    ∃ groups : List (List (LexerCall δ)), (∀ x ∈ groups, TokenCalls x) ∧ calls <+: groups.flatten := by
  cases g with
  | outside =>
    obtain rfl : calls = [] := h
    exact ⟨[], by simp, by simp⟩
  | string =>
    obtain ⟨first, chunks, rfl⟩ := h
    exact ⟨[_], List.forall_mem_singleton.mpr (.string first .null chunks), by simp⟩
  | bignum =>
    obtain ⟨first, value, chunks, rfl⟩ := h
    exact ⟨[_], List.forall_mem_singleton.mpr (.bignum first .null value chunks), by simp⟩

lemma Begun.step {g g' : CallGroup} {calls : List (LexerCall δ)} {f : LexerCall δ}
    (h : Begun g calls) (hf : g.next f = some g') (herr : f.isError = false) :
    Begun g' (calls ++ [f]) ∨ TokenCalls (calls ++ [f]) ∧ g' = .outside := by
  cases g with
  | outside =>
    obtain rfl : calls = [] := h
    cases f with
    | token tok position =>
      cases hf
      exact .inr ⟨.token _ _, rfl⟩
    | tokeni value position =>
      cases hf
      exact .inr ⟨.tokeni _ _, rfl⟩
    | tokenf value position =>
      cases hf
      exact .inr ⟨.tokenf _ _, rfl⟩
    | tokencBegin position =>
      cases hf
      exact .inl ⟨position, [], rfl⟩
    | tokenbnBegin position value =>
      cases hf
      exact .inl ⟨position, value, [], rfl⟩
    | errorEx code position => cases herr
    | _ => cases hf
  | string =>
    obtain ⟨first, chunks, rfl⟩ := h
    cases f with
    | tokenc data bytes =>
      cases hf
      exact .inl ⟨first, chunks ++ [(data, bytes)], by simp⟩
    | tokencEnd position =>
      cases hf
      exact .inr ⟨.string first position chunks, rfl⟩
    | errorEx code position => cases herr
    | _ => cases hf
  | bignum =>
    obtain ⟨first, value, chunks, rfl⟩ := h
    cases f with
    | tokenbn data bytes =>
      cases hf
      exact .inl ⟨first, value, chunks ++ [(data, bytes)], by simp⟩
    | tokenbnEnd position =>
      cases hf
      exact .inr ⟨.bignum first position value chunks, rfl⟩
    | errorEx code position => cases herr
    | _ => cases hf

lemma split_groups {calls : List (LexerCall δ)} {g : CallGroup}
    (h : calls.foldlM CallGroup.next .outside = some g) (herr : ∀ f ∈ calls, f.isError = false) :
    ∃ (groups : List (List (LexerCall δ))) (begun : List (LexerCall δ)),
      calls = groups.flatten ++ begun ∧ (∀ x ∈ groups, TokenCalls x) ∧ Begun g begun := by
  induction calls using List.reverseRecOn generalizing g with
  | nil =>
    cases h
    exact ⟨[], [], rfl, by simp, rfl⟩
  | append_singleton calls f ih =>
    obtain ⟨hcalls, hf⟩ := List.forall_mem_append.mp herr
    rw [List.foldlM_append] at h
    obtain ⟨g', hg', hnext⟩ := Option.bind_eq_some_iff.mp h
    obtain ⟨groups, begun, rfl, hgroups, hbegun⟩ := ih hg' hcalls
    have hnext' : g'.next f = some g := by simpa using hnext
    rcases hbegun.step hnext' (hf f (by simp)) with hgoes | ⟨htoken, rfl⟩
    · exact ⟨groups, begun ++ [f], by simp, hgroups, hgoes⟩
    · refine ⟨groups ++ [begun ++ [f]], [], by simp, ?_, rfl⟩
      exact List.forall_mem_append.mpr ⟨hgroups, List.forall_mem_singleton.mpr htoken⟩

lemma Grouped.inGroups {calls : List (LexerCall δ)} {g : CallGroup} (h : Grouped .outside calls g)
    (herr : ∀ f ∈ calls, f.isError = false) : InGroups calls := by
  obtain ⟨groups, begun, rfl, hgroups, hbegun⟩ := split_groups h.1 herr
  obtain ⟨more, hmore, hstart⟩ := begun_prefix hbegun
  refine ⟨groups ++ more, List.forall_mem_append.mpr ⟨hgroups, hmore⟩, ?_⟩
  rw [List.flatten_append]
  exact (List.prefix_append_right_inj _).mpr hstart

end Groups

section Parts

variable {chunk : List UInt8} {low high : ℤ} {calls : List (LexerCall δ)}

lemma LexerCall.Sound.raw_ne_nil {f : LexerCall δ} (hs : f.Sound) {data : Pointer}
    {bytes : List UInt8} (h : f.raw = some (data, bytes)) : bytes ≠ [] := by
  cases f with
  | tokenc data' bytes' =>
    cases data' <;> cases h <;> exact hs
  | tokenbn data' bytes' =>
    cases h
    exact hs.1
  | _ => cases h

lemma Placed.parts (h : Placed chunk low high calls) (h₀ : 0 ≤ low) (hs : ∀ f ∈ calls, f.Sound) :
    RawParts chunk calls ∧ ∀ x ∈ calls.filterMap LexerCall.raw,
      ∃ i : ℕ, x.1 = .buffer i ∧ low ≤ i := by
  induction calls generalizing low with
  | nil => exact ⟨⟨by simp, by simp⟩, by simp⟩
  | cons f calls ih =>
    obtain ⟨hf, hs⟩ := List.forall_mem_cons.mp hs
    cases hraw : f.raw with
    | none =>
      obtain ⟨hparts, hlow⟩ := ih ((placed_cons_plain hraw).mp h) h₀ hs
      rw [List.filterMap_cons_none hraw]
      refine ⟨⟨List.forall_mem_cons.mpr ⟨by simp [hraw], hparts.inside⟩, ?_⟩, hlow⟩
      rw [List.filterMap_cons_none hraw]
      exact hparts.ordered
    | some a =>
      obtain ⟨data, bytes⟩ := a
      obtain ⟨i, rfl, hi, hbytes, hcalls⟩ := (placed_cons_raw hraw).mp h
      obtain ⟨n, rfl⟩ := Int.eq_ofNat_of_zero_le (h₀.trans hi)
      rw [Int.toNat_natCast] at hbytes
      obtain ⟨hparts, hlow⟩ := ih hcalls (by omega) hs
      have hinside : n + bytes.length ≤ chunk.length := by
        have hpos := List.length_pos_iff.mpr (hf.raw_ne_nil hraw)
        have hlength := congrArg List.length hbytes
        rw [List.length_take, List.length_drop] at hlength
        omega
      rw [List.filterMap_cons_some hraw]
      refine ⟨⟨List.forall_mem_cons.mpr ⟨?_, hparts.inside⟩, ?_⟩, List.forall_mem_cons.mpr ⟨?_, ?_⟩⟩
      · rw [hraw]
        rintro _ _ ⟨⟩
        exact ⟨n, rfl, hinside, hbytes⟩
      · rw [List.filterMap_cons_some hraw]
        refine List.pairwise_cons.mpr ⟨fun y hy => ?_, hparts.ordered⟩
        obtain ⟨j, hj, hle⟩ := hlow y hy
        exact ⟨n, j, rfl, hj, by exact_mod_cast hle⟩
      · exact ⟨n, rfl, hi⟩
      · intro y hy
        obtain ⟨j, hj, hle⟩ := hlow y hy
        exact ⟨j, hj, by omega⟩

lemma RawParts.of_isPrefix {calls' : List (LexerCall δ)} (h : RawParts chunk calls')
    (hcalls : calls <+: calls') : RawParts chunk calls := by
  obtain ⟨rest, rfl⟩ := hcalls
  refine ⟨fun f hf => h.inside f (List.mem_append_left _ hf), ?_⟩
  have hordered := h.ordered
  rw [List.filterMap_append] at hordered
  exact (List.pairwise_append.mp hordered).1

end Parts

section Protocol

variable [DoubleArith δ]

/-- What a user of the lexer sees up to the first error, whatever the answers are. -/
theorem event_protocol (cfg : Config) (answer : List (LexerCall δ) → LexerCall δ → ℤ)
    (chunks : List (List UInt8)) :
    InGroups ((run answer (lexerSession cfg .zero chunks) []).1.takeWhile (!·.isError)) ∧
      (∀ f ∈ (run answer (lexerSession cfg .zero chunks) []).1.takeWhile (!·.isError), f.Sound) ∧
      ∀ lexer chunk history, RawParts chunk
        ((run answer (embedjsonLexerPush cfg chunk lexer) history).1.takeWhile (!·.isError)) := by
  have hsession : (run answer (lexerSession cfg .zero chunks) []).1.takeWhile (!·.isError) <+:
      (observe LexerCall.isError (lexerSession (δ := δ) cfg .zero chunks)).1 :=
    ((lexerSession_failsFast cfg .zero chunks).run_isPrefix answer []).trans (List.takeWhile_prefix _)
  obtain ⟨g, hg⟩ := lexerSession_grouped (δ := δ) cfg .zero chunks
  obtain ⟨g', hg'⟩ := hg.of_isPrefix hsession
  refine ⟨hg'.inGroups fun f hf => ?_, hg'.2, fun lexer chunk history => ?_⟩
  · simpa using List.all_eq_true.mp List.all_takeWhile f hf
  · obtain ⟨high, -, -, hplaced, hsound, -⟩ := embedjsonLexerPush_emits (δ := δ) cfg lexer chunk
    exact (hplaced.parts le_rfl hsound).1.of_isPrefix
      (((embedjsonLexerPush_failsFast lexer).run_isPrefix answer history).trans
        (List.takeWhile_prefix _))

end Protocol

end Embedjson
