import Embedjson.Lexer.Chunking

namespace Embedjson

open Foundations Foundations.Program

variable {δ : Type}

/-- Whether the lexer is inside a string behind a call, when it was (`true`) or was not before. -/
def phase : Bool → LexerCall δ → Option Bool
  | false, .token _ _ | false, .tokeni _ _ | false, .tokenf _ _ => some false
  | false, .tokencBegin _ => some true
  | true, .tokenc _ _ => some true
  | true, .tokencEnd _ => some false
  | inString, .errorEx code _ => if code = .internalError then none else some inString
  | _, _ => none

def InOrder (inString : Bool) (calls : List (LexerCall δ)) : Prop :=
  ∃ next, calls.foldlM phase inString = some next

def Lexer.inside (lex : Lexer) : Bool :=
  match lex.state with
  | .inString | .inStringEscape | .inStringUnicodeEscape => true
  | _ => false

lemma inOrder_cons {b : Bool} {f : LexerCall δ} {calls : List (LexerCall δ)} :
    InOrder b (f :: calls) ↔ ∃ next, phase b f = some next ∧ InOrder next calls := by
  simp only [InOrder, List.foldlM_cons, Option.bind_eq_bind, Option.bind_eq_some_iff]
  constructor
  · rintro ⟨c, a, ha, hc⟩
    exact ⟨a, ha, c, hc⟩
  · rintro ⟨a, ha, c, hc⟩
    exact ⟨c, a, ha, hc⟩

section Cut

lemma foldlM_phase_chars {bytes : List UInt8} (h : bytes ≠ []) (b : Bool) :
    (bytes.map charCall : List (LexerCall δ)).foldlM phase b =
      phase b (.tokenc .null bytes : LexerCall δ) := by
  have htrue (l : List UInt8) :
      (l.map charCall : List (LexerCall δ)).foldlM phase true = some true := by
    induction l with
    | nil => rfl
    | cons a l ih => exact ih
  obtain ⟨a, l, rfl⟩ := List.exists_cons_of_ne_nil h
  cases b with
  | false => rfl
  | true => exact htrue _

lemma foldlM_phase_cut (base : ℤ) {f : LexerCall δ} (hf : f.Nonempty) (b : Bool) :
    (f.cut base).foldlM phase b = phase b f := by
  cases f with
  | tokenc data bytes =>
    rw [LexerCall.cut, foldlM_phase_chars hf]
    cases b <;> rfl
  | tokenbn data bytes =>
    obtain ⟨a, l, rfl⟩ := List.exists_cons_of_ne_nil hf
    cases b <;> rfl
  | _ => cases b <;> simp [LexerCall.cut, phase]

lemma foldlM_phase_cutAll (base : ℤ) {calls : List (LexerCall δ)}
    (hcalls : ∀ f ∈ calls, f.Nonempty) (b : Bool) :
    (cutAll base calls).foldlM phase b = calls.foldlM phase b := by
  induction calls generalizing b with
  | nil => rfl
  | cons f calls ih =>
    obtain ⟨hf, hcalls⟩ := List.forall_mem_cons.mp hcalls
    rw [cutAll_cons, List.foldlM_append, foldlM_phase_cut base hf, List.foldlM_cons]
    exact bind_congr fun b' => ih hcalls b'

end Cut

def Orderly (inside : Bool) : Reaction δ → Prop
  | .consume calls lex => calls.foldlM phase inside = some lex.inside ∧ lex.state ≠ .inBigNumber
  | .unread calls lex => calls.foldlM phase inside = some lex.inside ∧ lex.state = .lookupToken
  | .reject code => code ≠ .internalError

section Reactions

variable {cfg : Config} {lex : Lexer} {b : UInt8} {inside : Bool} {at_ before : Pointer}

lemma Orderly.ite {p : Prop} [Decidable p] {r s : Reaction δ} (hr : Orderly inside r)
    (hs : Orderly inside s) : Orderly inside (if p then r else s) := by
  by_cases h : p
  · rwa [if_pos h]
  · rwa [if_neg h]

lemma orderly_quiet {lex' : Lexer} (h : inside = lex'.inside) (hs : lex'.state ≠ .inBigNumber) :
    Orderly inside (.consume [] lex' : Reaction δ) :=
  ⟨congrArg some h, hs⟩

lemma orderly_lookup (hs : lex.state = .lookupToken) :
    Orderly false (Reaction.ofLookup lex at_ b : Reaction δ) := by
  have hin : false = lex.inside := by simp [Lexer.inside, hs]
  have hbig : lex.state ≠ .inBigNumber := by simp [hs]
  refine .ite (orderly_quiet hin hbig) ?_
  iterate 6 refine .ite ⟨congrArg some hin, hbig⟩ ?_
  refine .ite ⟨rfl, nofun⟩ ?_
  iterate 4 refine .ite (orderly_quiet rfl nofun) ?_
  exact .ite (by simp [Orderly]) (.ite (orderly_quiet rfl nofun) (by simp [Orderly]))

lemma leadByte_error {code : ErrorCode} (h : leadByte lex b = .error code) : code = .longUtf8 := by
  unfold leadByte at h
  split_ifs at h
  cases h
  rfl

lemma continuation_error {code : ErrorCode} (h : continuation lex b = .error code) :
    code = .badUtf8 := by
  unfold continuation at h
  split_ifs at h <;> cases h <;> rfl

lemma checkUtf8_error {code : ErrorCode} (h : checkUtf8 cfg lex b = .error code) :
    code = .badUtf8 ∨ code = .longUtf8 := by
  unfold checkUtf8 at h
  split_ifs at h
  · cases hc : continuation lex b with
    | error code' =>
      rw [hc] at h
      cases h
      exact .inl (continuation_error hc)
    | ok lex' =>
      rw [hc] at h
      exact .inr (leadByte_error h)
  · exact .inr (leadByte_error h)

lemma orderly_string (hs : lex.state = .inString) :
    Orderly true (Reaction.ofString cfg lex at_ b : Reaction δ) := by
  unfold Reaction.ofString
  cases hc : checkUtf8 cfg lex b with
  | error code => rcases checkUtf8_error hc with rfl | rfl <;> simp [Orderly]
  | ok a =>
    obtain ⟨lex', last⟩ := a
    have hs' : lex'.state = .inString := (checkUtf8_state hc).trans hs
    have hstay : Orderly true (.consume [charCall b] lex' : Reaction δ) :=
      ⟨by simp [phase, charCall, Lexer.inside, hs'], by simp [hs']⟩
    cases last with
    | false => exact hstay
    | true =>
      refine .ite (orderly_quiet rfl ?_) (.ite ⟨rfl, ?_⟩ (.ite ?_ hstay))
      · simp
      · simp
      · simp [Orderly]

lemma orderly_escape : Orderly true (Reaction.ofEscape lex b : Reaction δ) := by
  unfold Reaction.ofEscape
  cases escapeByte b with
  | some e => exact ⟨rfl, nofun⟩
  | none => exact .ite (orderly_quiet rfl nofun) (by simp [Orderly])

lemma orderly_unicodeEscape (hs : lex.state = .inStringUnicodeEscape) :
    Orderly true (Reaction.ofUnicodeEscape lex b : Reaction δ) := by
  unfold Reaction.ofUnicodeEscape
  cases hexDigit b with
  | none => simp [Orderly]
  | some value =>
    dsimp only
    split_ifs with h
    · simp [Orderly, phase, charCall, Lexer.inside, pushHexDigit, h]
    · simp [Orderly, Lexer.inside, pushHexDigit, h, hs]

lemma orderly_keyword {keyword : String} {code : ErrorCode} {tok : Tok} {last : ℕ}
    (hcode : code ≠ .internalError) (hin : lex.inside = false) (hs : lex.state ≠ .inBigNumber) :
    Orderly false (Reaction.ofKeyword keyword code tok last lex at_ b : Reaction δ) :=
  .ite hcode (.ite ⟨rfl, nofun⟩ (orderly_quiet hin.symm hs))

lemma orderly_number (hbignum : cfg.bignum = false) (hs : lex.state = .inNumber) :
    Orderly false (Reaction.ofNumber cfg lex at_ before b : Reaction δ) := by
  have hdigit : Orderly false (.consume [] (pushIntDigit cfg lex b) : Reaction δ) :=
    orderly_quiet (by simp [Lexer.inside, pushIntDigit, hs]) (by simp [pushIntDigit, hs])
  unfold Reaction.ofNumber
  rw [hbignum, if_neg Bool.false_ne_true]
  exact .ite (.ite (by simp [Orderly]) (.ite (by simp [Orderly]) hdigit))
    (.ite (orderly_quiet rfl nofun) (.ite (orderly_quiet rfl nofun) ⟨rfl, rfl⟩))

variable [DoubleArith δ]

lemma orderly_frac (hs : lex.state = .inNumberFrac) :
    Orderly false (Reaction.ofFrac lex before b : Reaction δ) := by
  refine .ite (orderly_quiet ?_ ?_) (.ite (.ite (by simp [Orderly]) (orderly_quiet rfl nofun))
    (.ite (by simp [Orderly]) ⟨rfl, rfl⟩))
  · simp [Lexer.inside, pushFracDigit, hs]
  · simp [pushFracDigit, hs]

lemma orderly_exp (hs : lex.state = .inNumberExp) :
    Orderly false (Reaction.ofExp lex before b : Reaction δ) := by
  refine .ite (.ite (by simp [Orderly]) (orderly_quiet ?_ ?_)) (.ite (by simp [Orderly]) ⟨rfl, rfl⟩)
  · simp [Lexer.inside, pushExpDigit, hs]
  · simp [pushExpDigit, hs]

lemma react_orderly (hbignum : cfg.bignum = false) (hs : lex.state ≠ .inBigNumber) (index : ℤ)
    (b : UInt8) : Orderly lex.inside (react cfg lex index b : Reaction δ) := by
  unfold react
  cases h : lex.state with
  | lookupToken => simpa [Lexer.inside, h] using orderly_lookup h
  | inString => simpa [Lexer.inside, h] using orderly_string h
  | inStringEscape => simpa [Lexer.inside, h] using orderly_escape
  | inStringUnicodeEscape => simpa [Lexer.inside, h] using orderly_unicodeEscape h
  | inNumber => simpa [Lexer.inside, h] using orderly_number hbignum h
  | inNumberFrac => simpa [Lexer.inside, h] using orderly_frac h
  | inNumberExp => simpa [Lexer.inside, h] using orderly_exp h
  | inBigNumber => exact absurd h hs
  | inNumberSign =>
    rw [show lex.inside = false by simp [Lexer.inside, h]]
    exact .ite (orderly_quiet rfl nofun) (by simp [Orderly])
  | inNumberExpSign =>
    rw [show lex.inside = false by simp [Lexer.inside, h]]
    exact .ite (orderly_quiet rfl nofun) (.ite (orderly_quiet rfl nofun)
      (.ite (by simp [Orderly]) (orderly_quiet rfl nofun)))
  | inTrue | inFalse | inNull =>
    have hin : lex.inside = false := by simp [Lexer.inside, h]
    rw [hin]
    exact orderly_keyword (by decide) hin hs

end Reactions

/-- Calls in order, from a lexer that is inside a string or not to the one that they leave. -/
def OrderedRun (inside : Bool) (r : List (LexerCall δ) × Except ErrorCode Scan) : Prop :=
  ∃ next, r.1.foldlM phase inside = some next ∧
    match r.2 with
    | .ok s => next = s.lex.inside ∧ s.lex.state ≠ .inBigNumber
    | .error code => code ≠ .internalError

section Runs

variable [DoubleArith δ] {cfg : Config} (hbignum : cfg.bignum = false)

include hbignum

lemma scanStep_ordered {s : Scan} (hs : s.lex.state ≠ .inBigNumber) (b : UInt8) :
    OrderedRun s.lex.inside (scanStep (δ := δ) cfg s b) := by
  have hin : (recordMagic s.lex b).inside = s.lex.inside := by simp [Lexer.inside]
  have hrecorded : (recordMagic s.lex b).state ≠ .inBigNumber := by simpa using hs
  have h := react_orderly (δ := δ) hbignum hrecorded s.index b
  rw [hin] at h
  unfold scanStep
  cases hr : (react cfg (recordMagic s.lex b) s.index b : Reaction δ) with
  | consume calls lex =>
    rw [hr] at h
    exact ⟨_, h.1, rfl, h.2⟩
  | reject code =>
    rw [hr] at h
    exact ⟨_, rfl, h⟩
  | unread calls lex =>
    rw [hr] at h
    have hs' : (recordMagic lex b).state = .lookupToken := by simpa using h.2
    have hin' : (recordMagic lex b).inside = lex.inside := by simp [Lexer.inside]
    have hrecorded' : (recordMagic lex b).state ≠ .inBigNumber := by
      rw [hs']
      decide
    have h' := react_orderly (δ := δ) hbignum hrecorded' s.index b
    rw [hin'] at h'
    dsimp only
    cases hr' : (react cfg (recordMagic lex b) s.index b : Reaction δ) with
    | consume calls' lex' =>
      rw [hr'] at h'
      refine ⟨lex'.inside, ?_, rfl, h'.2⟩
      rw [List.foldlM_append, h.1]
      exact h'.1
    | reject code =>
      rw [hr'] at h'
      exact ⟨_, h.1, h'⟩
    | unread calls' lex' => exact absurd hr' (react_ne_unread hs' _ _ _ _)

lemma scanner_run_ordered {s : Scan} (hs : s.lex.state ≠ .inBigNumber) (bytes : List UInt8) :
    OrderedRun s.lex.inside ((scanner (δ := δ) cfg).run s bytes) := by
  induction bytes generalizing s with
  | nil => exact ⟨_, rfl, rfl, hs⟩
  | cons b bytes ih =>
    have h := scanStep_ordered (δ := δ) hbignum hs b
    rcases hstep : (scanner (δ := δ) cfg).step s b with ⟨calls, code | t⟩
    · rw [Transducer.run_cons_error _ hstep, ← hstep]
      exact h
    · rw [show scanStep cfg s b = _ from hstep] at h
      obtain ⟨next, hcalls, rfl, ht⟩ := h
      obtain ⟨next, hrest, hend⟩ := ih ht
      rw [Transducer.run_cons_ok _ hstep]
      refine ⟨next, ?_, hend⟩
      rw [List.foldlM_append, show List.foldlM phase _ calls = _ from hcalls]
      exact hrest

theorem embedjsonLexerPush_inOrder {lexer : Lexer} (hs : lexer.state ≠ .inBigNumber)
    (chunk : List UInt8) :
    ∃ next, (observe LexerCall.isError
        (embedjsonLexerPush (δ := δ) cfg chunk lexer)).1.foldlM phase lexer.inside = some next ∧
      ∀ a, (observe LexerCall.isError (embedjsonLexerPush (δ := δ) cfg chunk lexer)).2 = some a →
        next = a.2.inside ∧ a.2.state ≠ .inBigNumber := by
  have hagree := embedjsonLexerPush_agrees (δ := δ) cfg lexer 0 chunk
  obtain ⟨next, hcalls, hend⟩ := scanner_run_ordered (δ := δ) hbignum (s := ⟨lexer, 0⟩) hs chunk
  generalize observe LexerCall.isError (embedjsonLexerPush (δ := δ) cfg chunk lexer) = x at hagree
  obtain ⟨l, r⟩ := x
  rcases hrun : (scanner (δ := δ) cfg).run ⟨lexer, 0⟩ chunk with ⟨calls, code | s⟩
  · rw [hrun] at hagree hcalls hend
    obtain ⟨hne, rfl, m, q, i, rfl, -, -, hcut, -⟩ := hagree
    have hm := foldlM_phase_cutAll 0 (fun f hf => hne f (List.mem_append_left _ hf)) lexer.inside
    rw [← show cutAll 0 m ++ q = calls from hcut, List.foldlM_append] at hcalls
    obtain ⟨b, hb, -⟩ := Option.bind_eq_some_iff.mp hcalls
    refine ⟨b, ?_, fun a ha => ?_⟩
    · rw [List.foldlM_append, ← hm, hb]
      cases b <;> simp [phase, show code ≠ .internalError from hend]
    · simp at ha
  · rw [hrun] at hagree hcalls hend
    obtain ⟨hne, rfl, -, rfl⟩ := hagree
    rw [foldlM_phase_cutAll 0 hne] at hcalls
    refine ⟨next, hcalls, ?_⟩
    rintro a ⟨⟩
    exact hend

omit hbignum in
variable (cfg) in
theorem embedjsonLexerFinalize_inOrder {lexer : Lexer} (hs : lexer.state ≠ .inBigNumber) :
    InOrder lexer.inside (observe LexerCall.isError
      (embedjsonLexerFinalize (δ := δ) cfg lexer)).1 := by
  unfold embedjsonLexerFinalize Lexer.inside
  cases h : lexer.state with
  | inBigNumber => exact absurd h hs
  | inString | inStringEscape | inStringUnicodeEscape => exact ⟨true, rfl⟩
  | _ => exact ⟨false, rfl⟩

end Runs

end Embedjson
